import ElementModules.Project.IndexFile
import ElementModules.Proofs.Project.Working

/-!
# Writing index modules

An index module lists the element modules beside it, so it depends on all of them, but not on itself
and not on other index modules. A directory is **indexed** (`IsIndexed`) if its index module has the
text that it should have, or if a directory stands in its place. Every directory is indexed after its
index module was written, stays so while other ones are written, and then nothing is to be done.

## Main results

* `indexText_eq`: index modules do not depend on index modules.
* `isIndexed_write`, `IsIndexed.of_rewrites`, `write_of_isIndexed`: indexed directories.
-/

namespace ElementModules.Project

open ElementModules.Tree Descriptor

variable {t t' : Tree} {p : Path} {w : Indexer} {l : Library} {x : Text}
  {q : Address → Content → Prop}

/-! ### One file -/

/-- What writing an index module does: nothing where a directory or the same text stands, and else the
text is written. -/
theorem writeText_cases (hl : t.locate p = .ok p.address) (hr : p.requiresDirectory = false)
    (x : Text) :
    (t.get? p.address = some .dir ∧ ∃ e, Indexer.writeText t p x = (t, .error e))
      ∨ (t.get? p.address = some (.file (.text x)) ∧ Indexer.writeText t p x = (t, .ok .unchanged))
      ∨ (t.get? p.address ≠ some .dir ∧ t.get? p.address ≠ some (.file (.text x)))
        ∧ t.writeText p x = .ok (Indexer.writeText t p x).1 := by
  have hread := readText_of_locate hl hr
  have hwrite : t.writeText p x = _ := writeFile_of_locate hl hr (.text x)
  unfold Indexer.writeText
  rcases hg : t.get? p.address with _ | _ | y | bs <;> rw [hg] at hread hwrite
  · exact .inr (.inr ⟨by simp, by simp [hread, hwrite]⟩)
  · exact .inl ⟨rfl, .write p .isDirectory, by simp [hread, hwrite]⟩
  · by_cases hy : y = x
    · exact .inr (.inl ⟨by rw [hy], by simp [hread, hy]⟩)
    · exact .inr (.inr ⟨by simp [hy], by simp [hread, hwrite, hy]⟩)
  · exact .inr (.inr ⟨by simp, by simp [hread, hwrite]⟩)

/-! ### The text of an index module -/

/-- Where the index module of a library is written. -/
def Indexer.target (w : Indexer) (l : Library) : Path := l.dir.join ⟨w.registry.indexFile⟩

theorem isElementFile_congr {s : Selector} (h : t'.readText p = t.readText p) :
    isElementFile s t' p = isElementFile s t p := by
  rw [isElementFile, isElementFile, h]

theorem elementNames_congr {ps : List Path} (h : ∀ p ∈ ps, t'.readText p = t.readText p) :
    w.elementNames t' ps = w.elementNames t ps := by
  induction ps with
  | nil => rfl
  | cons p ps ih =>
    rw [Indexer.elementNames, Indexer.elementNames, isElementFile_congr (h p List.mem_cons_self),
      ih fun p hp => h p (List.mem_cons_of_mem _ hp)]

section

variable (hl : l.dir.IsDown) (hproper : t.IsProper) (h : Rewrites q (fun _ => False) t t')
  (hq : ∀ a c, q a c → ∃ front, a = front ++ [w.registry.indexFile])
  (hindex : isModuleName w.registry.indexFile = true)
include hl h hq hindex

omit hl in
/-- The modules that are listed stay the same when index modules are written. -/
theorem moduleNames_eq_of_rewrites (d : Address) :
    t'.moduleNames (moduleScope w.registry) d = t.moduleNames (moduleScope w.registry) d := by
  have hmodule : ∀ a c, q a c → ∃ front n, a = front ++ [n] ∧ isModuleName n = true := by
    intro a c hc
    obtain ⟨front, rfl⟩ := hq a c hc
    exact ⟨front, _, rfl, hindex⟩
  have hfile : ∀ n, n ≠ w.registry.indexFile → ∀ c', t'.get? (d ++ [n]) = some (.file c') →
      t.get? (d ++ [n]) = some (.file c') := by
    intro n hne c' hc'
    refine (h.file_or hc').resolve_right fun hc => hne ?_
    obtain ⟨front, he⟩ := hq _ c' hc
    exact List.singleton_inj.1 (List.append_inj' he rfl).2
  refine moduleNames_congr fun names => ⟨fun hn => ?_, fun hn => ?_⟩
  · obtain ⟨n, rfl, ⟨c, hc⟩, -, hne⟩ := exists_of_mem_moduleNames hn
    exact (isListedIn_of_rewrites h hmodule (hfile n hne c hc)).1 hn
  · obtain ⟨n, rfl, ⟨c, hc⟩, -, -⟩ := exists_of_mem_moduleNames hn
    exact (isListedIn_of_rewrites h hmodule hc).2 hn

include hproper

/-- **Index modules do not depend on index modules.** -/
theorem indexText_eq : w.indexText t' l = w.indexText t l := by
  have hdir : t'.isDir l.dir = t.isDir l.dir := h.isDir_eq hl fun _ _ => id
  rw [Indexer.indexText, Indexer.indexText, modulesIn, modulesIn]
  cases hd : t.isDir l.dir with
  | false =>
    rw [listable, listable, hdir, hd]
    rfl
  | true =>
    rw [listable_of_isDir hl hd, listable_of_isDir hl (hdir.trans hd)]
    simp only [Except.map]
    rw [moduleNames_eq_of_rewrites h hq hindex, elementNames_congr]
    intro p hp
    obtain ⟨names, hnames, rfl⟩ := List.mem_map.1 hp
    obtain ⟨n, rfl, ⟨c, hc⟩, -, hne⟩ := exists_of_mem_moduleNames hnames
    have hname : IsFileName n := hproper _ _ hc n (by simp)
    refine h.readText_eq (isDown_join hname hl) (locate_join hname hl hd) (fun c hc => hne ?_) id
    obtain ⟨front, he⟩ := hq _ c hc
    exact List.singleton_inj.1 (List.append_inj' he rfl).2

end

/-! ### Indexed directories -/

/-- A directory whose index module has the text that it should have, or cannot be written. -/
def IsIndexed (w : Indexer) (t : Tree) (l : Library) : Prop :=
  t.isDir l.dir = true → ∀ x, w.indexText t l = .ok x →
    t.get? (w.target l).address = some (.file (.text x)) ∨ t.get? (w.target l).address = some .dir

section

variable (hl : l.dir.IsDown) (hname : IsFileName w.registry.indexFile)
include hl hname

theorem locate_target {t : Tree} (hdir : t.isDir l.dir = true) :
    t.locate (w.target l) = .ok (w.target l).address := by
  rw [Indexer.target, locate_join hname hl hdir, address_join hname]

omit hl hname in
/-- Without a text, nothing is written. -/
theorem write_of_no_text (h : t.isDir l.dir = false ∨ ∃ e, w.indexText t l = .error e) :
    (w.write t l).1 = t ∧ (w.write t l).2.outcome.isChange = false := by
  rw [Indexer.write]
  cases hdir : t.isDir l.dir with
  | false => exact ⟨rfl, rfl⟩
  | true =>
    obtain ⟨e, he⟩ := h.resolve_left (by simp [hdir])
    rw [he]
    exact ⟨rfl, rfl⟩

omit hl hname in
/-- The text of an index module is written. -/
theorem write_of_text (hdir : t.isDir l.dir = true) (hx : w.indexText t l = .ok x) :
    (w.write t l).1 = (Indexer.writeText t (w.target l) x).1
      ∧ (∀ r, Indexer.writeText t (w.target l) x = (t, r) → r = .ok .unchanged ∨ (∃ e, r = .error e) →
        (w.write t l).2.outcome.isChange = false) := by
  rw [Indexer.write, hdir, hx]
  unfold Indexer.target
  dsimp only [Bool.not_true, Bool.false_eq_true, if_false]
  cases hw : Indexer.writeText t (l.dir.join ⟨w.registry.indexFile⟩) x with
  | mk t₁ r =>
    cases r with
    | error e => exact ⟨rfl, fun _ _ _ => rfl⟩
    | ok outcome =>
      refine ⟨rfl, fun r hr h => ?_⟩
      obtain ⟨-, rfl⟩ := Prod.mk.inj hr
      rcases h with h | ⟨e, h⟩
      · obtain rfl := Except.ok.inj h
        rfl
      · cases h

omit hl hname in
/-- **What writing an index module does**: nothing, or a text is written. -/
theorem write_cases (w : Indexer) (t : Tree) (l : Library) : (w.write t l).1 = t
    ∨ t.isDir l.dir = true ∧ ∃ x, t.writeText (w.target l) x = .ok (w.write t l).1 := by
  cases hdir : t.isDir l.dir with
  | false => exact .inl (write_of_no_text (.inl hdir)).1
  | true =>
    cases hx : w.indexText t l with
    | error e => exact .inl (write_of_no_text (.inr ⟨e, hx⟩)).1
    | ok x =>
      rw [(write_of_text hdir hx).1]
      unfold Indexer.writeText
      dsimp only
      split_ifs
      · exact .inl rfl
      · split
        next hw => exact .inr ⟨rfl, x, hw⟩
        · exact .inl rfl

/-- What writing an index module writes. -/
theorem rewrites_write_index (t : Tree) :
    Rewrites (fun a c => a = (w.target l).address ∧ ∃ x, c = .text x) (fun _ => False) t
      (w.write t l).1 := by
  rcases write_cases w t l with hsame | ⟨-, x, hw⟩
  · rw [hsame]
    exact .refl _ _ t
  · exact (Rewrites.of_writeText (isDown_join hname hl) hw).mono
      (fun a c hc => ⟨hc.1, x, hc.2⟩) fun _ => id

/-- **In an indexed directory**, nothing is to be done. -/
theorem write_of_isIndexed (h : IsIndexed w t l) :
    (w.write t l).1 = t ∧ (w.write t l).2.outcome.isChange = false := by
  cases hdir : t.isDir l.dir with
  | false => exact write_of_no_text (.inl hdir)
  | true =>
    cases hx : w.indexText t l with
    | error e => exact write_of_no_text (.inr ⟨e, hx⟩)
    | ok x =>
      obtain ⟨hfst, hout⟩ := write_of_text hdir hx
      rcases writeText_cases (locate_target hl hname hdir) (hname.requiresDirectory_join l.dir) x with
        ⟨-, e, he⟩ | ⟨-, he⟩ | ⟨⟨hdir', hfile⟩, -⟩
      · exact ⟨by rw [hfst, he], hout _ he (.inr ⟨e, rfl⟩)⟩
      · exact ⟨by rw [hfst, he], hout _ he (.inl rfl)⟩
      · rcases h hdir x hx with hg | hg
        · exact absurd hg hfile
        · exact absurd hg hdir'

variable (hproper : t.IsProper) (hindex : isModuleName w.registry.indexFile = true)
include hproper hindex

/-- **Every directory is indexed** after its index module was written. -/
theorem isIndexed_write : IsIndexed w (w.write t l).1 l := by
  have hrewrites := rewrites_write_index hl hname t
  have hq : ∀ (a : Address) (c : Content), (a = (w.target l).address ∧ ∃ x, c = .text x) →
      ∃ front, a = front ++ [w.registry.indexFile] := fun a c hc =>
    ⟨l.dir.address, by rw [hc.1, Indexer.target, address_join hname]⟩
  intro hdir x hx
  have hdir' : t.isDir l.dir = true := by rwa [hrewrites.isDir_eq hl fun _ _ => id] at hdir
  rw [indexText_eq hl hproper hrewrites hq hindex] at hx
  rw [(write_of_text hdir' hx).1]
  rcases writeText_cases (locate_target hl hname hdir') (hname.requiresDirectory_join l.dir) x with
    ⟨hg, e, he⟩ | ⟨hg, he⟩ | ⟨-, he⟩
  · rw [he]
    exact .inr hg
  · rw [he]
    exact .inl hg
  · obtain ⟨a, hl', -, hget⟩ := writeFile_eq_ok he
    have ha : a = (w.target l).address := eq_address_of_locate (isDown_join hname hl) hl'
    exact .inl (by rw [hget, if_pos ha.symm])

omit hname in
/-- A directory stays indexed when other index modules are written. -/
theorem IsIndexed.of_rewrites (h : IsIndexed w t l) (hr : Rewrites q (fun _ => False) t t')
    (hq : ∀ a c, q a c → a ≠ (w.target l).address ∧ ∃ front, a = front ++ [w.registry.indexFile]) :
    IsIndexed w t' l := by
  intro hdir x hx
  rw [hr.isDir_eq hl fun _ _ => id] at hdir
  rw [indexText_eq hl hproper hr (fun a c hc => (hq a c hc).2) hindex] at hx
  rw [hr.get?_eq (fun c hc => (hq _ c hc).1 rfl) id]
  exact h hdir x hx

end

end ElementModules.Project
