import ElementModules.Proofs.Tree.Extending
import ElementModules.Proofs.Tree.Listed

/-!
# Operations that keep directories

Operations that make directories, write files or move them never take a directory away, whatever the
paths look like that they are given: also a path that goes up and down again. And the names of what
they make are names that files can have. So every path that led somewhere leads there afterwards
(`KeepsDirs.locate`). Only the removal of a directory is different.

Main results: `KeepsDirs.isDir`, and `keepsDirs_makeParents`, `keepsDirs_writeFile` and the like for
the operations.
-/

namespace ElementModules.Tree

variable {t t' t'' : Tree} {p s d : Path} {a : Address} {c : Content}

/-- A tree in which all directories of another one stand, and whose names are names of files if those
of the other one are. -/
structure KeepsDirs (t t' : Tree) : Prop where
  dir : ∀ a, t.get? a = some .dir → t'.get? a = some .dir
  isProper : t.IsProper → t'.IsProper

namespace KeepsDirs

theorem refl (t : Tree) : KeepsDirs t t := ⟨fun _ => id, id⟩

theorem trans (h : KeepsDirs t t') (h' : KeepsDirs t' t'') : KeepsDirs t t'' :=
  ⟨fun a ha => h'.dir a (h.dir a ha), fun ht => h'.isProper (h.isProper ht)⟩

/-- A path leads where it led. -/
theorem locate (h : KeepsDirs t t') (hl : t.locate p = .ok a) : t'.locate p = .ok a :=
  locate_of_dirs h.dir hl

theorem isDir (h : KeepsDirs t t') (hd : t.isDir p = true) : t'.isDir p = true := by
  obtain ⟨a, hl, ha⟩ := isDir_iff.1 hd
  exact isDir_iff.2 ⟨a, h.locate hl, h.dir a ha⟩

end KeepsDirs

/-! ### Nodes that are put somewhere -/

/-- Putting a node where a path leads keeps the directories. -/
theorem keepsDirs_of_put {n : Node} (hl : t.locate p = .ok a) (hdir : t.get? a ≠ some .dir)
    (hget : ∀ b, t'.get? b = if b = a then some n else t.get? b) : KeepsDirs t t' where
  dir b hb := by
    rw [hget, if_neg, hb]
    rintro rfl
    exact hdir hb
  isProper ht b m hm := by
    rw [hget] at hm
    split_ifs at hm with hb
    · exact hb ▸ isFileName_of_locate hl
    · exact ht b m hm

theorem keepsDirs_writeFile (h : t.writeFile p c = .ok t') : KeepsDirs t t' := by
  obtain ⟨a, hl, hdir, hget⟩ := writeFile_eq_ok h
  exact keepsDirs_of_put hl hdir hget

/-- What was written is read. -/
theorem readText_writeText {x : Text} (h : t.writeText p x = .ok t') : t'.readText p = .ok x := by
  obtain ⟨a, hl, -, hget⟩ := writeFile_eq_ok h
  have hfile : p.requiresDirectory = false := by
    rw [writeText, writeFile, hl] at h
    dsimp only at h
    split at h
    · cases h
    · split_ifs at h with hr
      simpa using hr
    · split_ifs at h with hr
      simpa using hr
  exact readText_eq_ok_iff.2 ⟨a, (keepsDirs_writeFile h).locate hl, by rw [hget, if_pos rfl], hfile⟩

/-- A file whose text can be read can be written. -/
theorem exists_writeText {x : Text} (h : t.readText p = .ok x) (y : Text) :
    ∃ t', t.writeText p y = .ok t' := by
  obtain ⟨a, hl, hx, hr⟩ := readText_eq_ok_iff.1 h
  exact ⟨t.setFile a (.text y), by rw [writeText, writeFile_of_locate hl hr, if_neg (by simp [hx])]⟩

theorem copyFile_eq_ok (h : t.copyFile s d = .ok t') :
    ∃ c, t.node s = .ok (.file c) ∧ t.writeFile d c = .ok t' := by
  unfold copyFile at h
  split at h
  · cases h
  · cases h
  next c hn => exact ⟨c, hn, h⟩

theorem keepsDirs_copyFile (h : t.copyFile s d = .ok t') : KeepsDirs t t' := by
  obtain ⟨c, -, hw⟩ := copyFile_eq_ok h
  exact keepsDirs_writeFile hw

/-! ### Directories that are made -/

theorem keepsDirs_mkdir (h : t.mkdir p = .ok t') : KeepsDirs t t' := by
  obtain ⟨a, hl, hnone, hget⟩ := mkdir_eq_ok h
  exact keepsDirs_of_put hl (by simp [hnone]) hget

theorem keepsDirs_makeDirs (t : Tree) (p : Path) : KeepsDirs t (t.makeDirs p).1 :=
  makeChain_induct .refl (fun _ _ _ => .trans) (fun _ _ _ _ => keepsDirs_mkdir) t

theorem keepsDirs_makeParents (t : Tree) (p : Path) : KeepsDirs t (t.makeParents p).1 := by
  rw [makeParents]
  split
  · exact keepsDirs_makeDirs t _
  · exact .refl t

/-- The directories that are made for a path stand where it leads through. -/
theorem addsDirs_makeDirs_of_leadsThrough (t : Tree) (p : Path) :
    AddsDirs (fun a => p.LeadsThrough a ∧ ∀ n ∈ a, IsFileName n) t (t.makeDirs p).1 := by
  refine makeChain_induct (AddsDirs.refl _) (fun _ _ _ => .trans) (fun u v q hq hm a => ?_) t
  obtain ⟨b, hl, hnone, hget⟩ := mkdir_eq_ok hm
  rw [hget]
  split_ifs with ha
  · exact .inr ⟨ha ▸ hnone, rfl, ⟨_, Path.components_of_mem_ancestors hq, ha ▸ goal_of_locate hl⟩,
      ha ▸ isFileName_of_locate hl⟩
  · exact .inl rfl

/-- So do those that are made in front of a path. -/
theorem addsDirs_makeParents_of_leadsThrough (t : Tree) (p : Path) :
    AddsDirs (fun a => p.LeadsThrough a ∧ ∀ n ∈ a, IsFileName n) t (t.makeParents p).1 := by
  rw [makeParents]
  split
  next d hd =>
    refine (addsDirs_makeDirs_of_leadsThrough t d).mono fun a => And.imp_left ?_
    rintro ⟨cs, hcs, ha⟩
    rw [(Path.components_of_parent? hd).1] at hcs
    exact ⟨cs, hcs.trans (List.dropLast_prefix _), ha⟩
  · exact .refl _ t

/-! ### Files that are moved -/

/-- What a move does: nothing, or a file stands at its new place and not at its old one. -/
theorem rename_eq_ok (h : t.rename s d = .ok t') :
    t' = t ∨ ∃ a b c, t.locate s = .ok a ∧ t.locate d = .ok b ∧ t.get? a = some (.file c)
      ∧ t.get? b ≠ some .dir ∧ d.requiresDirectory = false ∧ a ≠ b
      ∧ ∀ x, t'.get? x = if x = a then none else if x = b then some (.file c) else t.get? x := by
  rw [rename] at h
  split at h
  · cases h
  · cases h
  next a b hs hd =>
    split_ifs at h with hrefused
    obtain rfl := Except.ok.inj h
    rw [Bool.or_eq_true, decide_eq_true_eq, not_or] at hrefused
    by_cases hsame : a = b ∨ ∀ c, t.get? a ≠ some (.file c)
    · left
      rw [transfer]
      split
      next c hc => rw [if_pos (hsame.resolve_right fun hno => hno c hc)]
      · rfl
    · obtain ⟨hne, hfile⟩ := not_or.1 hsame
      obtain ⟨c, hc⟩ := not_forall_not.1 hfile
      have hnil : b ≠ [] := by
        rintro rfl
        exact hrefused.2 rfl
      exact .inr ⟨a, b, c, hs, hd, hc, hrefused.2, Bool.eq_false_iff.2 hrefused.1, hne,
        get?_transfer hc hne (hasPlace_of_locate hd hnil) hrefused.2⟩

theorem keepsDirs_rename (h : t.rename s d = .ok t') : KeepsDirs t t' := by
  rcases rename_eq_ok h with rfl | ⟨a, b, c, -, hd, ha, hb, -, -, hget⟩
  · exact .refl t'
  · refine ⟨fun x hx => ?_, fun ht x n hn => ?_⟩
    · rw [hget, if_neg, if_neg, hx]
      · rintro rfl
        exact hb hx
      · rintro rfl
        rw [ha] at hx
        cases hx
    · rw [hget] at hn
      split_ifs at hn with h₁ h₂
      · exact h₂ ▸ isFileName_of_locate hd
      · exact ht x n hn

theorem keepsDirs_moveFile (t : Tree) (s d : Path) : KeepsDirs t (t.moveFile s d).1 := by
  have hparents := keepsDirs_makeParents t d
  rw [moveFile]
  split
  next hm => rwa [hm] at hparents
  next t₁ hm =>
    rw [hm] at hparents
    split
    next hr => exact hparents.trans (keepsDirs_rename hr)
    · exact hparents

end ElementModules.Tree
