import ElementModules.Proofs.Project.Failing
import ElementModules.Proofs.Project.Repeating
import ElementModules.Proofs.Tree.Entering

/-!
# One generated module

What becomes of a module that is written. If the directory of the modules can be entered, the outcome
is told by what stands in the place of the module (`ModuleWriter.verdict`), and at most that place
changes. If it cannot be entered, the first module decides: either the directory is there from then
on, or it cannot be made, no later attempt changes anything, and all modules fail
(`write_of_not_isDecided`). So a module that was written is settled: written again it changes nothing,
in any tree in which other modules were written since.

The directory of the modules is made after nothing was found in the place of the module. If its path
makes a detour, it leads to a directory that stood before, and a file there is replaced without having
been looked at. This is the only way in which a file is lost when files that differ are kept
(`get?_write_of_file`).

## Main results

* `write_of_opens`, `write_of_makeDirs_error`, `write_of_not_isDecided`: the writing of a module.
* `isSettled_write`, `IsSettled.write_other`: a module that was written is settled.
* `writesFiles_write`, `get?_write_of_file`: which files are written, and that none is lost.
-/

namespace ElementModules

/-- What is reported for an element in a second run, given the outcome of the first one. -/
def Outcome.settled (o : Outcome) : Outcome :=
  if o = .created ∨ o = .written then .unchanged else o

namespace Project

open ElementModules.Tree Descriptor Script ModuleWriter

variable {t u : Tree} {w : ModuleWriter} {m m' : ElementModule} {d : Address} {o : Outcome}

theorem isPathPiece_moduleFile {name : Text} (h : isIdentifier name = true) :
    IsPathPiece (moduleFile name) := by
  have hname : Script.isName name = true := (Bool.and_eq_true_iff.1 h).1
  refine ⟨slash_not_mem_moduleFile hname, fun hc => ?_, pieceComponent?_moduleFile name⟩
  rcases List.mem_append.1 hc with hc | hc
  · exact ne_of_class (isNameChar_of_mem hname hc) rfl rfl
  · exact absurd hc (by decide)

/-! ### A directory that can be entered -/

namespace ModuleWriter

/-- What becomes of a module, from what stands in its place. -/
def verdict (w : ModuleWriter) (m : ElementModule) : Option Node → Outcome
  | none => .created
  | some (.file (.text x)) =>
    if x = m.text then .unchanged else if w.overwrite then .written else .conflict
  | some _ => .failed

/-- What becomes of a module in a directory that can be entered. -/
def verdictIn (w : ModuleWriter) (t : Tree) (d : Address) (m : ElementModule) : Outcome :=
  if Text.size m.fileName ≤ 255 then w.verdict m (t.get? (d ++ [m.fileName])) else .failed

end ModuleWriter

theorem readText_of_locate_error {p : Path} {e : Fault} (h : t.locate p = .error e) :
    t.readText p = .error e := by rw [readText, node, h]

/-- What cannot be read, although it is there, is not written. -/
theorem write_of_readText_error {e : Fault} (h : t.readText (w.target m) = .error e)
    (he : e ≠ .notFound) : (w.write t m).1 = t ∧ (w.write t m).2.outcome = .failed := by
  unfold write
  rw [← target]
  simp [h, ModuleWriter.failedEntry]

/-- Where the directory cannot be made, or the file not be written, the module fails. -/
theorem write_of_create_error {e : Fault} (h : t.readText (w.target m) = .error .notFound) {u : Tree}
    (hc : w.create t (w.target m) m.text = (u, .error e)) :
    (w.write t m).1 = u ∧ (w.write t m).2.outcome = .failed := by
  unfold write
  rw [← target]
  simp [h, hc, ModuleWriter.failedEntry]

/-- **A file with a text** is left as it is, kept although it differs, or replaced. -/
theorem write_of_readText {x : Text} (h : t.readText (w.target m) = .ok x) :
    (w.write t m).1 = t ∧ (w.write t m).2.outcome = .unchanged
      ∨ w.overwrite = false ∧ (w.write t m).1 = t ∧ (w.write t m).2.outcome = .conflict
      ∨ (w.write t m).1 = t ∧ (w.write t m).2.outcome = .failed
      ∨ w.overwrite = true ∧ t.writeText (w.target m) m.text = .ok (w.write t m).1
        ∧ (w.write t m).2.outcome = .written := by
  unfold write
  rw [← target]
  simp only [h]
  split_ifs with hx hover
  · exact .inl ⟨rfl, rfl⟩
  · exact .inr (.inl ⟨by simpa using hover, rfl, rfl⟩)
  · cases hw : t.writeText (w.target m) m.text with
    | ok u => exact .inr (.inr (.inr ⟨by simpa using hover, rfl, rfl⟩))
    | error e => exact .inr (.inr (.inl ⟨rfl, rfl⟩))

theorem write_of_create (h : t.readText (w.target m) = .error .notFound) {u : Tree}
    (hc : w.create t (w.target m) m.text = (u, .ok ())) :
    (w.write t m).1 = u ∧ (w.write t m).2.outcome = .created := by
  unfold write
  rw [← target]
  simp [h, hc]

section Opens

variable (ho : t.Opens w.dir d) (hn : IsPathPiece m.fileName)
include ho hn

theorem locate_target_of_opens :
    t.locate (w.target m) = Tree.step d (.name m.fileName) := ho.locate_join hn

/-- **In a directory that can be entered** the outcome is told by what stands in the place of the
module. A change writes the text of the module there and nothing else. -/
theorem write_of_opens : (w.write t m).2.outcome = w.verdictIn t d m
    ∧ ((w.verdictIn t d m).isChange = false → (w.write t m).1 = t)
    ∧ ∀ b, (w.write t m).1.get? b
      = if b = d ++ [m.fileName] ∧ (w.verdictIn t d m).isChange = true then some (.file (.text m.text))
        else t.get? b := by
  have hl := locate_target_of_opens ho hn
  have hreq : (w.target m).requiresDirectory = false := hn.requiresDirectory_join w.dir
  have hfailed : (w.write t m).1 = t ∧ (w.write t m).2.outcome = .failed →
      w.verdictIn t d m = .failed → (w.write t m).2.outcome = w.verdictIn t d m
        ∧ ((w.verdictIn t d m).isChange = false → (w.write t m).1 = t)
        ∧ ∀ b, (w.write t m).1.get? b = if b = d ++ [m.fileName] ∧ (w.verdictIn t d m).isChange = true
          then some (.file (.text m.text)) else t.get? b := by
    rintro ⟨hfst, hout⟩ hv
    rw [hv, hfst]
    exact ⟨hout, fun _ => rfl, fun b => by simp [Outcome.isChange]⟩
  by_cases hsize : Text.size m.fileName ≤ 255
  · rw [step_name hsize] at hl
    have hread := readText_of_locate hl hreq
    have hwrite : t.writeText (w.target m) m.text = _ := writeFile_of_locate hl hreq (.text m.text)
    have hset := get?_setFile (c := .text m.text) (hasPlace_of_locate hl (by simp))
    have hv : w.verdictIn t d m = w.verdict m (t.get? (d ++ [m.fileName])) := if_pos hsize
    rcases hg : t.get? (d ++ [m.fileName]) with _ | _ | x | bs <;> rw [hg] at hread hwrite hv hset
    · have hcreate : w.create t (w.target m) m.text
          = (t.setFile (d ++ [m.fileName]) (.text m.text), .ok ()) := by
        simp [create, makeDirs_of_opens ho, hwrite]
      obtain ⟨hfst, hout⟩ := write_of_create hread hcreate
      rw [hv, hfst]
      refine ⟨hout, fun h => (by cases h), fun b => ?_⟩
      simpa [verdict, Outcome.isChange] using hset (by simp) b
    · exact hfailed (write_of_readText_error hread (by decide)) hv
    · rw [hv]
      unfold write
      rw [← target]
      simp only [hread, verdict, hwrite]
      by_cases hx : x = m.text
      · simp [hx, Outcome.isChange]
      · by_cases hover : w.overwrite = true <;> simp [hx, hover, Outcome.isChange, hset]
    · exact hfailed (write_of_readText_error hread (by decide)) hv
  · rw [step_long_name hsize] at hl
    exact hfailed (write_of_readText_error (readText_of_locate_error hl) (by decide)) (if_neg hsize)

end Opens

/-! ### A directory that cannot be entered -/

/-- A writer can enter its directory, or it cannot make it and does not change anything by trying. -/
def IsDecided (w : ModuleWriter) (t : Tree) : Prop :=
  (∃ d, t.Opens w.dir d) ∨ ∃ e, t.makeDirs w.dir = (t, .error e)

/-- **In a directory that cannot be made** every module fails, and nothing changes. -/
theorem write_of_makeDirs_error {e : Fault} (h : t.makeDirs w.dir = (t, .error e))
    (hn : IsPathPiece m.fileName) : (w.write t m).1 = t ∧ (w.write t m).2.outcome = .failed := by
  have hclosed : ∀ d, ¬ t.Opens w.dir d := by
    intro d ho
    rw [makeDirs_of_opens ho] at h
    cases h
  obtain ⟨e', hl, -⟩ := exists_locate_join_error hclosed
  have hread := readText_of_locate_error (hl m.fileName hn)
  by_cases he : e' = .notFound
  · rw [he] at hread
    exact write_of_create_error hread (e := e) (by rw [create, h])
  · exact write_of_readText_error hread he

/-- **The first module** of a writer that is not decided: its directory cannot be made, or it can be
entered from then on, and the module is written unless its name is too long or a directory stands in
its place. -/
theorem write_of_not_isDecided (h : ¬ IsDecided w t) (hn : IsPathPiece m.fileName) :
    ((∃ e, (t.makeDirs w.dir).2 = .error e) ∧ (w.write t m).1 = (t.makeDirs w.dir).1
        ∧ (w.write t m).2.outcome = .failed)
      ∨ ∃ d, (t.makeDirs w.dir).1.Opens w.dir d ∧ ¬ t.Opens w.dir d
        ∧ (((Text.size m.fileName ≤ 255 → (t.makeDirs w.dir).1.get? (d ++ [m.fileName]) = some .dir)
            ∧ (w.write t m).1 = (t.makeDirs w.dir).1 ∧ (w.write t m).2.outcome = .failed)
          ∨ (Text.size m.fileName ≤ 255
            ∧ (t.makeDirs w.dir).1.get? (d ++ [m.fileName]) ≠ some .dir
            ∧ (w.write t m).2.outcome = .created ∧ (w.write t m).1.Opens w.dir d
            ∧ ∀ b, (w.write t m).1.get? b = if b = d ++ [m.fileName] then some (.file (.text m.text))
              else (t.makeDirs w.dir).1.get? b)) := by
  rw [IsDecided, not_or, not_exists, not_exists] at h
  obtain ⟨hclosed, hmakes⟩ := h
  obtain ⟨e, hl, he⟩ := exists_locate_join_error hclosed
  have hmissing : e = .notFound := by
    by_contra hne
    obtain ⟨e', he'⟩ := he hne
    exact hmakes e' he'
  subst hmissing
  have hread : t.readText (w.target m) = .error .notFound :=
    readText_of_locate_error (hl m.fileName hn)
  cases hm : t.makeDirs w.dir with
  | mk t₁ r =>
    cases r with
    | error e =>
      obtain ⟨hfst, hfailed⟩ := write_of_create_error hread (e := e) (u := t₁) (by rw [create, hm])
      exact .inl ⟨⟨e, rfl⟩, hfst, hfailed⟩
    | ok _ =>
      obtain ⟨d, ho⟩ := exists_opens_of_makeDirs (t := t) (p := w.dir) (by rw [hm])
      rw [hm] at ho
      refine .inr ⟨d, ho, hclosed d, ?_⟩
      have hl₁ := locate_target_of_opens ho hn
      have hreq : (w.target m).requiresDirectory = false := hn.requiresDirectory_join w.dir
      have hfails : ∀ {e : Fault}, t₁.writeText (w.target m) m.text = .error e →
          (w.write t m).1 = t₁ ∧ (w.write t m).2.outcome = .failed := by
        intro e hw
        exact write_of_create_error hread (e := e) (by simp [create, hm, hw])
      by_cases hsize : Text.size m.fileName ≤ 255
      · rw [step_name hsize] at hl₁
        have hwrite := writeFile_of_locate hl₁ hreq (.text m.text)
        by_cases hdir : t₁.get? (d ++ [m.fileName]) = some .dir
        · exact .inl ⟨fun _ => hdir, hfails (hwrite.trans (if_pos hdir))⟩
        · have hw : t₁.writeText (w.target m) m.text
              = .ok (t₁.setFile (d ++ [m.fileName]) (.text m.text)) := hwrite.trans (if_neg hdir)
          obtain ⟨hfst, hcreated⟩ := write_of_create hread
            (u := t₁.setFile (d ++ [m.fileName]) (.text m.text)) (by simp [create, hm, hw])
          have ho' := ho.of_keepsDirs (keepsDirs_writeFile hw)
          refine .inr ⟨hsize, hdir, hcreated, hfst ▸ ho', fun b => ?_⟩
          rw [hfst, get?_setFile (hasPlace_of_locate hl₁ (by simp)) hdir]
      · rw [step_long_name hsize] at hl₁
        refine .inl ⟨fun hc => absurd hc hsize, hfails (e := .nameTooLong) ?_⟩
        rw [writeText, writeFile, hl₁]

/-! ### Settled modules -/

/-- A tree in which files were written where some paths lead, with the texts that belong to them. -/
structure WritesFiles (G : Path → Text → Prop) (t t' : Tree) : Prop where
  keepsDirs : KeepsDirs t t'
  new : ∀ a c, t'.get? a = some (.file c) → t.get? a = some (.file c)
    ∨ ∃ p x, G p x ∧ t'.locate p = .ok a ∧ c = .text x
  old : ∀ a c, t.get? a = some (.file c) → t'.get? a = some (.file c)
    ∨ ∃ p x, G p x ∧ t'.locate p = .ok a ∧ t'.get? a = some (.file (.text x))

namespace WritesFiles

variable {G : Path → Text → Prop} {v : Tree}

theorem refl (G : Path → Text → Prop) (t : Tree) : WritesFiles G t t :=
  ⟨.refl t, fun _ _ => .inl, fun _ _ => .inl⟩

theorem trans (h : WritesFiles G t u) (h' : WritesFiles G u v) : WritesFiles G t v where
  keepsDirs := h.keepsDirs.trans h'.keepsDirs
  new a c hv := by
    rcases h'.new a c hv with hu | hnew
    · exact (h.new a c hu).imp_right fun ⟨p, x, hG, hl, hx⟩ => ⟨p, x, hG, h'.keepsDirs.locate hl, hx⟩
    · exact .inr hnew
  old a c ht := by
    rcases h.old a c ht with hu | ⟨p, x, hG, hl, hu⟩
    · exact h'.old a c hu
    · rcases h'.old a _ hu with hv | hnew
      · exact .inr ⟨p, x, hG, h'.keepsDirs.locate hl, hv⟩
      · exact .inr hnew

theorem of_makeDirs (t : Tree) (p : Path) : WritesFiles G t (t.makeDirs p).1 where
  keepsDirs := keepsDirs_makeDirs t p
  new a c h := by
    rcases addsDirs_makeDirs_of_leadsThrough t p a with he | ⟨-, hd, -⟩
    · exact .inl (he ▸ h)
    · rw [hd] at h
      cases h
  old a c h := .inl ((addsDirs_makeDirs_of_leadsThrough t p).keeps (fun _ => True) a trivial _ h)

theorem of_writeText {p : Path} {x : Text} (hG : G p x) (h : t.writeText p x = .ok u) :
    WritesFiles G t u := by
  have hkeeps := keepsDirs_writeFile h
  obtain ⟨b, hl, -, hget⟩ := writeFile_eq_ok h
  refine ⟨hkeeps, fun a c ha => ?_, fun a c ha => ?_⟩
  · rw [hget] at ha
    split_ifs at ha with hab
    · exact .inr ⟨p, x, hG, hab ▸ hkeeps.locate hl, by simpa using ha.symm⟩
    · exact .inl ha
  · rw [hget]
    split_ifs with hab
    · exact .inr ⟨p, x, hG, hab ▸ hkeeps.locate hl, rfl⟩
    · exact .inl ha

end WritesFiles

/-- The writing of a module writes no other file. -/
theorem writesFiles_write {G : Path → Text → Prop} (w : ModuleWriter) (t : Tree)
    (hG : G (w.target m) m.text) : WritesFiles G t (w.write t m).1 := by
  have hsame : (w.write t m).1 = t → WritesFiles G t (w.write t m).1 := by
    intro h
    rw [h]
    exact .refl G t
  cases hread : t.readText (w.target m) with
  | ok x =>
    rcases write_of_readText hread with ⟨h, -⟩ | ⟨-, h, -⟩ | ⟨h, -⟩ | ⟨-, h, -⟩
    · exact hsame h
    · exact hsame h
    · exact hsame h
    · exact .of_writeText hG h
  | error e =>
    by_cases he : e = .notFound
    · subst he
      rw [(write_of_notFound hread).1]
      rcases create_cases w t (w.target m) m.text with ⟨e, h, -⟩ | ⟨e, h, -⟩ | ⟨-, h⟩
      · exact h ▸ .of_makeDirs t w.dir
      · exact h ▸ .of_makeDirs t w.dir
      · exact (WritesFiles.of_makeDirs t w.dir).trans (.of_writeText hG h)
    · exact hsame (write_of_readText_error hread he).1

/-- A module that is not written again, and what is reported for it. -/
def IsSettled (w : ModuleWriter) (u : Tree) (m : ElementModule) (o : Outcome) : Prop :=
  IsDecided w u ∧ (w.write u m).2.outcome = o ∧ o.isChange = false

theorem IsSettled.fst (h : IsSettled w u m o) (hn : IsPathPiece m.fileName) : (w.write u m).1 = u := by
  obtain ⟨⟨d, ho⟩ | ⟨e, he⟩, hout, hchange⟩ := h
  · obtain ⟨hv, hsame, -⟩ := write_of_opens ho hn
    rw [← hout, hv] at hchange
    exact hsame hchange
  · exact (write_of_makeDirs_error he hn).1

/-- A verdict that was carried out settles. -/
theorem verdictIn_of_get? (h : u.get? (d ++ [m.fileName])
      = if (w.verdictIn t d m).isChange = true then some (.file (.text m.text))
        else t.get? (d ++ [m.fileName])) :
    w.verdictIn u d m = (w.verdictIn t d m).settled ∧ (w.verdictIn u d m).isChange = false := by
  rw [verdictIn, verdictIn] at *
  split_ifs at h ⊢ with hsize hchange
  · rw [h]
    revert hchange
    rcases t.get? (d ++ [m.fileName]) with _ | _ | x | bs
    · simp [verdict, Outcome.settled, Outcome.isChange]
    · simp [verdict, Outcome.isChange]
    · simp only [verdict]
      split_ifs <;> simp [Outcome.settled, Outcome.isChange]
    · simp [verdict, Outcome.isChange]
  · rw [h]
    revert hchange
    rcases t.get? (d ++ [m.fileName]) with _ | _ | x | bs
    · simp [verdict, Outcome.isChange]
    · simp [verdict, Outcome.settled, Outcome.isChange]
    · simp only [verdict]
      split_ifs <;> simp [Outcome.settled, Outcome.isChange]
    · simp [verdict, Outcome.settled, Outcome.isChange]
  all_goals simp [Outcome.settled, Outcome.isChange]

/-- **A module that was written** is settled. -/
theorem isSettled_write (hn : IsPathPiece m.fileName) (t : Tree) :
    IsSettled w (w.write t m).1 m (w.write t m).2.outcome.settled := by
  have hkeeps := keepsDirs_write w t m
  by_cases hdecided : IsDecided w t
  · rcases hdecided with ⟨d, ho⟩ | ⟨e, he⟩
    · obtain ⟨hout, -, hget⟩ := write_of_opens ho hn
      have ho' := ho.of_keepsDirs hkeeps
      have hv := verdictIn_of_get? (u := (w.write t m).1) (by simpa using hget (d ++ [m.fileName]))
      exact ⟨.inl ⟨d, ho'⟩, by rw [(write_of_opens ho' hn).1, hv.1, hout], by rw [hout, ← hv.1, hv.2]⟩
    · obtain ⟨hfst, hfailed⟩ := write_of_makeDirs_error he hn
      rw [hfst, hfailed]
      exact ⟨.inr ⟨e, he⟩, hfailed, rfl⟩
  · rcases write_of_not_isDecided hdecided hn with ⟨⟨e, he⟩, hfst, hfailed⟩
      | ⟨d, ho, -, ⟨hdir, hfst, hfailed⟩ | ⟨hsize, -, hcreated, ho', hget⟩⟩
    · obtain ⟨e', he'⟩ := makeDirs_of_makeDirs_error he
      rw [hfst, hfailed]
      exact ⟨.inr ⟨e', he'⟩, (write_of_makeDirs_error he' hn).2, rfl⟩
    · have hv : w.verdictIn (t.makeDirs w.dir).1 d m = .failed := by
        rw [verdictIn]
        split_ifs with hsize
        · rw [hdir hsize]
          rfl
        · rfl
      rw [hfst, hfailed]
      exact ⟨.inl ⟨d, ho⟩, by rw [(write_of_opens ho hn).1, hv]; rfl, rfl⟩
    · have hv : w.verdictIn (w.write t m).1 d m = .unchanged := by
        rw [verdictIn, if_pos hsize, hget, if_pos rfl]
        exact if_pos rfl
      rw [hcreated]
      exact ⟨.inl ⟨d, ho'⟩, by rw [(write_of_opens ho' hn).1, hv]; rfl, rfl⟩

/-- A settled module stays settled when another one is written. -/
theorem IsSettled.write_other (h : IsSettled w u m o) (hn : IsPathPiece m.fileName)
    (hn' : IsPathPiece m'.fileName) (hne : m.fileName ≠ m'.fileName) :
    IsSettled w (w.write u m').1 m o := by
  obtain ⟨⟨d, ho⟩ | ⟨e, he⟩, hout, hchange⟩ := h
  · have ho' := ho.of_keepsDirs (keepsDirs_write w u m')
    have hget : (w.write u m').1.get? (d ++ [m.fileName]) = u.get? (d ++ [m.fileName]) := by
      rw [(write_of_opens ho hn').2.2, if_neg]
      simp [hne]
    have hv : w.verdictIn (w.write u m').1 d m = w.verdictIn u d m := by
      rw [verdictIn, verdictIn, hget]
    refine ⟨.inl ⟨d, ho'⟩, ?_, hchange⟩
    rw [(write_of_opens ho' hn).1, hv, ← (write_of_opens ho hn).1, hout]
  · rw [(write_of_makeDirs_error he hn').1]
    exact ⟨.inr ⟨e, he⟩, hout, hchange⟩

/-- A settled module that neither failed nor is in conflict has its text. -/
theorem IsSettled.readText (h : IsSettled w u m o) (hn : IsPathPiece m.fileName) (hf : o ≠ .failed)
    (hc : o ≠ .conflict) : u.readText (w.target m) = .ok m.text := by
  obtain ⟨⟨d, ho⟩ | ⟨e, he⟩, hout, hchange⟩ := h
  · have hl := locate_target_of_opens ho hn
    have hreq : (w.target m).requiresDirectory = false := hn.requiresDirectory_join w.dir
    rw [(write_of_opens ho hn).1, verdictIn] at hout
    split_ifs at hout with hsize
    · rw [step_name hsize] at hl
      rcases hg : u.get? (d ++ [m.fileName]) with _ | _ | x | bs
      · rw [← hout, hg] at hchange
        cases hchange
      · rw [hg] at hout
        exact absurd hout.symm hf
      · rw [hg, verdict] at hout
        split_ifs at hout with hx
        · exact readText_eq_ok_iff.2 ⟨_, hl, by rw [hg, hx], hreq⟩
        · rw [← hout] at hchange
          cases hchange
        · exact absurd hout.symm hc
      · rw [hg] at hout
        exact absurd hout.symm hf
    · exact absurd hout.symm hf
  · rw [(write_of_makeDirs_error he hn).2] at hout
    exact absurd hout.symm hf

/-- Which outcomes depend on whether files are replaced. -/
theorem outcome_write (w : ModuleWriter) (t : Tree) (m : ElementModule) :
    ((w.write t m).2.outcome = .written → w.overwrite = true)
      ∧ ((w.write t m).2.outcome = .conflict → w.overwrite = false) := by
  have hother : ∀ {o}, (w.write t m).2.outcome = o → o ≠ .written → o ≠ .conflict →
      ((w.write t m).2.outcome = .written → w.overwrite = true)
        ∧ ((w.write t m).2.outcome = .conflict → w.overwrite = false) := by
    intro o ho hwritten hconflict
    rw [ho]
    exact ⟨fun hc => absurd hc hwritten, fun hc => absurd hc hconflict⟩
  cases hread : t.readText (w.target m) with
  | ok x =>
    rcases write_of_readText hread with ⟨-, h⟩ | ⟨hkeep, -, h⟩ | ⟨-, h⟩ | ⟨hover, -, h⟩
    · exact hother h nofun nofun
    · rw [h]
      exact ⟨nofun, fun _ => hkeep⟩
    · exact hother h nofun nofun
    · rw [h]
      exact ⟨fun _ => hover, nofun⟩
  | error e =>
    by_cases he : e = .notFound
    · subst he
      cases hc : w.create t (w.target m) m.text with
      | mk u r =>
        cases r with
        | error e => exact hother (write_of_create_error hread hc).2 nofun nofun
        | ok _ => exact hother (write_of_create hread hc).2 nofun nofun
    · exact hother (write_of_readText_error hread he).2 nofun nofun

/-- **No file is lost** when modules that differ are kept, unless the directory of the modules is made
on a detour. -/
theorem get?_write_of_file (hover : w.overwrite = false) (hn : IsPathPiece m.fileName)
    (hd : IsDecided w t ∨ ¬ t.Detours w.dir) {a : Address} {c : Content}
    (h : t.get? a = some (.file c)) : (w.write t m).1.get? a = some (.file c) := by
  by_cases hdecided : IsDecided w t
  · rcases hdecided with ⟨d, ho⟩ | ⟨e, he⟩
    · rw [(write_of_opens ho hn).2.2, if_neg, h]
      rintro ⟨rfl, hchange⟩
      rw [verdictIn] at hchange
      split_ifs at hchange
      · rcases c with x | bs
        · rw [h, verdict, hover] at hchange
          split_ifs at hchange with hx hfalse
          · cases hchange
          · cases hfalse
          · cases hchange
        · rw [h] at hchange
          cases hchange
      · cases hchange
    · rw [(write_of_makeDirs_error he hn).1, h]
  · have hkept : (t.makeDirs w.dir).1.get? a = some (.file c) :=
      (addsDirs_makeDirs_of_leadsThrough t w.dir).keeps (fun _ => True) a trivial _ h
    rcases write_of_not_isDecided hdecided hn with ⟨-, hfst, -⟩
      | ⟨d, ho, hclosed, ⟨-, hfst, -⟩ | ⟨-, -, -, -, hget⟩⟩
    · rw [hfst, hkept]
    · rw [hfst, hkept]
    · rw [hget, if_neg, hkept]
      rintro rfl
      -- the file stood in the directory that could not be entered
      have hdir := t.get?_dropLast h (by simp)
      rw [List.dropLast_concat] at hdir
      exact hd.resolve_left hdecided ⟨d, ho, hdir, hclosed⟩

end Project

end ElementModules
