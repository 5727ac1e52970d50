import ElementModules.Proofs.Project.Verdicts

/-!
# Generating modules again

A table is written element by element. The names of a table are distinct, so what becomes of an element
is settled as soon as it was written: the later ones have other places. A second run finds every
element settled and changes nothing (`writeModules_settles`).

## Main results

* `writeModules_settles`: what writing a table does to a tree, and that it settles after one run.
* `writeModules_overwrites`: a file that is lost on a detour.
-/

namespace ElementModules.Project

open ElementModules.Tree Descriptor Script ModuleWriter

variable {t u : Tree} {w : ModuleWriter} {m m' : ElementModule} {d : Address} {o : Outcome}

/-! ### Elements -/

variable {table : ElementTable} {registry : Registry} {e e' : Text × ElementRow}

theorem fileName_of_generate (h : generate table registry e.1 e.2 = .ok m) :
    isIdentifier e.1 = true ∧ m.fileName = moduleFile e.1 := by
  rw [generate] at h
  split_ifs at h with hid
  obtain rfl := Except.ok.inj h
  exact ⟨hid, rfl⟩

theorem isPathPiece_of_generate (h : generate table registry e.1 e.2 = .ok m) :
    IsPathPiece m.fileName := by
  obtain ⟨hid, hfile⟩ := fileName_of_generate h
  exact hfile ▸ isPathPiece_moduleFile hid

theorem moduleFile_inj {x y : Text} (h : moduleFile x = moduleFile y) : x = y :=
  List.append_cancel_right h

theorem writeElement_of_ok (h : generate table registry e.1 e.2 = .ok m) (t : Tree) :
    w.writeElement table registry t e = w.write t m := by rw [writeElement, h]

theorem writeElement_of_error {f : Failure} (h : generate table registry e.1 e.2 = .error f)
    (t : Tree) : w.writeElement table registry t e
      = (t, ModuleWriter.failedEntry (w.dir.join ⟨moduleFile e.1⟩) f) := by rw [writeElement, h]

/-- The entry for an element names its file. -/
theorem path_writeElement (w : ModuleWriter) (table : ElementTable) (registry : Registry) (t : Tree)
    (e : Text × ElementRow) : (w.writeElement table registry t e).2.stage = .generate
      ∧ (w.writeElement table registry t e).2.path = w.dir.join ⟨moduleFile e.1⟩ := by
  cases hg : generate table registry e.1 e.2 with
  | error f =>
    rw [writeElement_of_error hg]
    exact ⟨rfl, rfl⟩
  | ok m =>
    rw [writeElement_of_ok hg, ← (fileName_of_generate hg).2]
    unfold write
    dsimp only
    split
    · split_ifs
      · exact ⟨rfl, rfl⟩
      · exact ⟨rfl, rfl⟩
      · split <;> exact ⟨rfl, rfl⟩
    · split <;> exact ⟨rfl, rfl⟩
    · exact ⟨rfl, rfl⟩

/-- An element that is not written again, and what is reported for it. -/
def IsSettledElement (w : ModuleWriter) (table : ElementTable) (registry : Registry)
    (e : Text × ElementRow) (o : Outcome) (u : Tree) : Prop :=
  match generate table registry e.1 e.2 with
  | .ok m => IsSettled w u m o
  | .error _ => o = .failed

/-- **An element that was written** is settled. -/
theorem isSettledElement_writeElement (w : ModuleWriter) (table : ElementTable) (registry : Registry)
    (t : Tree) (e : Text × ElementRow) :
    IsSettledElement w table registry e (w.writeElement table registry t e).2.outcome.settled
      (w.writeElement table registry t e).1 := by
  rw [IsSettledElement]
  cases hg : generate table registry e.1 e.2 with
  | error f =>
    rw [writeElement_of_error hg]
    rfl
  | ok m =>
    rw [writeElement_of_ok hg]
    exact isSettled_write (isPathPiece_of_generate hg) t

theorem IsSettledElement.writeElement_other (h : IsSettledElement w table registry e o u)
    (hne : e.1 ≠ e'.1) :
    IsSettledElement w table registry e o (w.writeElement table registry u e').1 := by
  rw [IsSettledElement] at *
  cases hg : generate table registry e.1 e.2 with
  | error f => rwa [hg] at h
  | ok m =>
    rw [hg] at h
    cases hg' : generate table registry e'.1 e'.2 with
    | error f => rwa [writeElement_of_error hg']
    | ok m' =>
      rw [writeElement_of_ok hg']
      refine IsSettled.write_other h (isPathPiece_of_generate hg) (isPathPiece_of_generate hg') ?_
      rw [(fileName_of_generate hg).2, (fileName_of_generate hg').2]
      exact mt moduleFile_inj hne

/-- A settled element is not written again. -/
theorem IsSettledElement.again (h : IsSettledElement w table registry e o u) :
    (w.writeElement table registry u e).1 = u ∧ (w.writeElement table registry u e).2.outcome = o := by
  rw [IsSettledElement] at h
  cases hg : generate table registry e.1 e.2 with
  | error f =>
    rw [hg] at h
    rw [writeElement_of_error hg]
    exact ⟨rfl, h.symm⟩
  | ok m =>
    rw [hg] at h
    rw [writeElement_of_ok hg]
    exact ⟨IsSettled.fst h (isPathPiece_of_generate hg), h.2.1⟩

/-! ### Tables -/

/-- What writing a table does to a tree, and what is reported about it. -/
structure IsGeneration (w : ModuleWriter) (table : ElementTable) (registry : Registry) (t t' : Tree)
    (report : StageReport) : Prop where
  /-- There is one entry for each element, in the order of the table. -/
  paths : report.entries.map (fun x => (x.stage, x.path))
    = table.entries.map fun e => (.generate, w.dir.join ⟨moduleFile e.1⟩)
  /-- An element whose name cannot be bound fails, and nothing is made for it in any tree. -/
  unbound : ∀ y ∈ table.entries.zip report.entries, isIdentifier y.1.1 = false →
    y.2.outcome = .failed ∧ ∀ u, w.writeElement table registry u y.1 = (u, y.2)
  /-- A file that is new stands where the module of an element belongs, and it holds that module. -/
  new : ∀ a c, t'.get? a = some (.file c) → t.get? a = some (.file c)
    ∨ ∃ e ∈ table.entries, ∃ m, isIdentifier e.1 = true ∧ generate table registry e.1 e.2 = .ok m
      ∧ t'.locate (w.dir.join ⟨moduleFile e.1⟩) = .ok a ∧ c = .text m.text
  /-- A file that is no longer as it was has been replaced by the module of an element. -/
  old : ∀ a c, t.get? a = some (.file c) → t'.get? a = some (.file c)
    ∨ ∃ e ∈ table.entries, ∃ m, isIdentifier e.1 = true ∧ generate table registry e.1 e.2 = .ok m
      ∧ t'.locate (w.dir.join ⟨moduleFile e.1⟩) = .ok a ∧ t'.get? a = some (.file (.text m.text))
  /-- A second run changes nothing. -/
  again : (w.writeModules t' table registry).1 = t'
  /-- A second run reports modules that were created or written as unchanged, and of the others the
  same as before. -/
  outcomes : (w.writeModules t' table registry).2.entries.map Entry.outcome
    = report.entries.map fun x => x.outcome.settled

theorem writeModules_eq (w : ModuleWriter) (t : Tree) (table : ElementTable) (registry : Registry) :
    w.writeModules t table registry
      = ((t.each (w.writeElement table registry) table.entries).1,
        ⟨.generate, (t.each (w.writeElement table registry) table.entries).2⟩) := rfl

/-- The elements of a table are settled once it was written. -/
theorem isSettledElement_of_mem (w : ModuleWriter) (t : Tree) (table : ElementTable)
    (registry : Registry) : ∀ y ∈ table.entries.zip (w.writeModules t table registry).2.entries,
      IsSettledElement w table registry y.1 y.2.outcome.settled (w.writeModules t table registry).1 := by
  have hdistinct : table.entries.Pairwise fun e e' => e.1 ≠ e'.1 := List.pairwise_map.1 table.distinct
  refine each_answered (P := fun e (x : Entry) u => IsSettledElement w table registry e x.outcome.settled u)
    (fun t e _ => isSettledElement_writeElement w table registry t e) ?_ t
  exact hdistinct.imp fun hne u x hx => hx.writeElement_other hne

/-- Writing a table writes no other files. -/
theorem writesFiles_writeModules (w : ModuleWriter) (t : Tree) (table : ElementTable)
    (registry : Registry) : WritesFiles
      (fun p x => ∃ e ∈ table.entries, ∃ m, generate table registry e.1 e.2 = .ok m
        ∧ p = w.dir.join ⟨moduleFile e.1⟩ ∧ x = m.text)
      t (w.writeModules t table registry).1 := by
  rw [writeModules_eq]
  refine each_induct (.refl _ t) fun u e he hu => hu.trans ?_
  cases hg : generate table registry e.1 e.2 with
  | error f =>
    rw [writeElement_of_error hg]
    exact .refl _ u
  | ok m =>
    rw [writeElement_of_ok hg]
    refine writesFiles_write w u ⟨e, he, m, hg, ?_, rfl⟩
    rw [target, (fileName_of_generate hg).2]

theorem isGeneration_writeModules (w : ModuleWriter) (t : Tree) (table : ElementTable)
    (registry : Registry) : IsGeneration w table registry t (w.writeModules t table registry).1
      (w.writeModules t table registry).2 := by
  have hfiles := writesFiles_writeModules w t table registry
  have hagain := each_repeated (f := w.writeElement table registry) (g := Entry.outcome)
    (k := fun x => x.outcome.settled) (length_each (w.writeElement table registry) t table.entries)
    fun y hy => (isSettledElement_of_mem w t table registry y hy).again
  refine ⟨?_, ?_, fun a c h => ?_, fun a c h => ?_, hagain.1, hagain.2⟩
  · refine map_each (fun t e _ => ?_) t
    obtain ⟨hstage, hpath⟩ := path_writeElement w table registry t e
    rw [hstage, hpath]
  · refine each_answered (P := fun e (x : Entry) _ => isIdentifier e.1 = false →
      x.outcome = .failed ∧ ∀ u, w.writeElement table registry u e = (u, x)) (fun t e _ hid => ?_)
      (List.pairwise_of_forall fun _ _ _ _ h => h) t
    have hg : generate table registry e.1 e.2 = .error (.invalidIdentifier e.1) := by
      rw [generate, if_neg (by simp [hid])]
    rw [writeElement_of_error hg]
    exact ⟨rfl, writeElement_of_error hg⟩
  · refine (hfiles.new a c h).imp_right ?_
    rintro ⟨p, x, ⟨e, he, m, hg, rfl, rfl⟩, hl, hx⟩
    exact ⟨e, he, m, (fileName_of_generate hg).1, hg, hl, hx⟩
  · refine (hfiles.old a c h).imp_right ?_
    rintro ⟨p, x, ⟨e, he, m, hg, rfl, rfl⟩, hl, hx⟩
    exact ⟨e, he, m, (fileName_of_generate hg).1, hg, hl, hx⟩

/-- Writing a table loses no file if modules that differ are kept and the directory is reached without
a detour. -/
theorem get?_writeModules_of_file (hover : w.overwrite = false) (hd : ¬ t.Detours w.dir)
    (table : ElementTable) (registry : Registry) {a : Address} {c : Content}
    (h : t.get? a = some (.file c)) :
    (w.writeModules t table registry).1.get? a = some (.file c) := by
  suffices hboth : (IsDecided w (w.writeModules t table registry).1
        ∨ ¬ (w.writeModules t table registry).1.Detours w.dir)
      ∧ (w.writeModules t table registry).1.get? a = some (.file c) from hboth.2
  refine each_induct (P := fun u => (IsDecided w u ∨ ¬ u.Detours w.dir)
    ∧ u.get? a = some (.file c)) ⟨.inr hd, h⟩ ?_
  · rintro u e - ⟨hu, hfile⟩
    cases hg : generate table registry e.1 e.2 with
    | error f =>
      rw [writeElement_of_error hg]
      exact ⟨hu, hfile⟩
    | ok m =>
      have hn := isPathPiece_of_generate hg
      rw [writeElement_of_ok hg]
      exact ⟨.inl (isSettled_write hn u).1, get?_write_of_file hover hn hu hfile⟩

/-- Which outcomes depend on whether files are replaced. -/
theorem outcome_writeModules (w : ModuleWriter) (t : Tree) (table : ElementTable)
    (registry : Registry) : ∀ x ∈ (w.writeModules t table registry).2.entries,
      (x.outcome = .written → w.overwrite = true) ∧ (x.outcome = .conflict → w.overwrite = false) := by
  refine each_induct_answers (P := fun _ (xs : List Entry) => ∀ x ∈ xs, (x.outcome = .written → w.overwrite = true)
    ∧ (x.outcome = .conflict → w.overwrite = false)) (by simp) fun u xs e _ hxs => ?_
  rw [List.forall_mem_append, List.forall_mem_singleton]
  refine ⟨hxs, ?_⟩
  cases hg : generate table registry e.1 e.2 with
  | error f =>
    rw [writeElement_of_error hg]
    exact ⟨fun hc => (by cases hc), fun hc => (by cases hc)⟩
  | ok m =>
    rw [writeElement_of_ok hg]
    exact outcome_write w u m

/-- **Generation settles after one run.** One entry is reported for each element; files are written
only where modules of elements belong, and they hold them; elements whose names cannot be bound fail;
and a second run changes nothing. If modules that differ are kept, no file is lost, unless the
directory of the modules is reached on a detour only. If they are replaced, every element that did not
fail has its module. -/
theorem writeModules_settles (w : ModuleWriter) (t : Tree) (table : ElementTable)
    (registry : Registry) :
    IsGeneration w table registry t (w.writeModules t table registry).1
        (w.writeModules t table registry).2
      ∧ (w.overwrite = false → (∀ x ∈ (w.writeModules t table registry).2.entries, x.outcome ≠ .written)
        ∧ (¬ t.Detours w.dir → ∀ a c, t.get? a = some (.file c) →
          (w.writeModules t table registry).1.get? a = some (.file c)))
      ∧ (w.overwrite = true → ∀ y ∈ table.entries.zip (w.writeModules t table registry).2.entries,
        y.2.outcome ≠ .failed → ∃ m, generate table registry y.1.1 y.1.2 = .ok m
          ∧ (w.writeModules t table registry).1.readText y.2.path = .ok m.text) := by
  have houtcomes := outcome_writeModules w t table registry
  refine ⟨isGeneration_writeModules w t table registry, fun hover => ⟨fun x hx hw => ?_, fun hd a c => ?_⟩,
    fun hover y hy hfailed => ?_⟩
  · rw [(houtcomes x hx).1 hw] at hover
    cases hover
  · exact get?_writeModules_of_file hover hd table registry
  · have hsettled := isSettledElement_of_mem w t table registry y hy
    have hconflict : y.2.outcome ≠ .conflict := by
      intro hc
      rw [(houtcomes y.2 (List.of_mem_zip hy).2).2 hc] at hover
      cases hover
    have hkept : ∀ o : Outcome, y.2.outcome ≠ o → o ≠ .unchanged → y.2.outcome.settled ≠ o := by
      intro o hne hun
      rw [Outcome.settled]
      split_ifs
      · exact hun.symm
      · exact hne
    have hpath : y.2.path = w.dir.join ⟨moduleFile y.1.1⟩ :=
      each_answered (P := fun e (x : Entry) _ => x.path = w.dir.join ⟨moduleFile e.1⟩)
        (fun t e _ => (path_writeElement w table registry t e).2)
        (List.pairwise_of_forall fun _ _ _ _ h => h) t y hy
    rw [IsSettledElement] at hsettled
    cases hg : generate table registry y.1.1 y.1.2 with
    | error f =>
      rw [hg] at hsettled
      exact absurd hsettled (hkept _ hfailed (by decide))
    | ok m =>
      rw [hg] at hsettled
      refine ⟨m, rfl, ?_⟩
      rw [hpath, ← (fileName_of_generate hg).2]
      exact IsSettled.readText hsettled (isPathPiece_of_generate hg) (hkept _ hfailed (by decide))
        (hkept _ hconflict (by decide))

/-- A project with one module that was written by hand. -/
def handmade : Tree where
  nodes := [(["out"], .dir), (["out", "a.js"], .file (.text "// by hand\n"))]
  distinct := by decide
  closed := by decide

/-- Two elements, and one whose name cannot be bound. -/
def smallTable : ElementTable where
  entries := [("a", { label := "A", drawingTag := "R" }), ("b-c", { label := "B", drawingTag := "C" }),
    ("d", { label := "D", drawingTag := "D" })]
  distinct := by decide

/-- The module that was written by hand is kept, and so it is in a second run; it is replaced if that is
wanted. -/
theorem writeModules_settles_handmade :
    ¬ handmade.Detours "out"
      ∧ ((ModuleWriter.mk "out" false).writeModules handmade smallTable {}).1.get? ["out", "a.js"]
        = some (.file (.text "// by hand\n"))
      ∧ ((ModuleWriter.mk "out" false).writeModules handmade smallTable {}).2.entries.map Entry.outcome
        = [.conflict, .failed, .created]
      ∧ IsGeneration (ModuleWriter.mk "out" true) smallTable {} handmade
        ((ModuleWriter.mk "out" true).writeModules handmade smallTable {}).1
        ((ModuleWriter.mk "out" true).writeModules handmade smallTable {}).2 := by
  have hd : ¬ handmade.Detours "out" := not_detours_of_isDown (by decide) handmade
  have hkept := (writeModules_settles (.mk "out" false) handmade smallTable {}).2.1 rfl
  exact ⟨hd, hkept.2 hd _ _ (by decide), by decide, (writeModules_settles _ _ _ _).1⟩

/-- The directory is reached through one that does not exist, and up again: nothing is found there
before that one is made, and then the module that was written by hand is replaced. -/
theorem writeModules_overwrites :
    handmade.get? ["out", "a.js"] = some (.file (.text "// by hand\n"))
      ∧ ((ModuleWriter.mk "new/../out" false).writeModules handmade smallTable {}).1.get? ["out", "a.js"]
        ≠ some (.file (.text "// by hand\n")) := by
  decide

end ElementModules.Project
