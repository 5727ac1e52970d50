import ElementModules.Proofs.Tree.Preserving

/-!
# Histories of trees

What happened to a tree is told as a list of events, each of which concerns one node: a directory is
made, a file moves or is written, each to a place where nothing stands, or an empty directory goes.
So no event overwrites anything, and a history carries every file that was there at first to some
place: no two of them to the same one, and none that never moves to another one (`carry`). A file
that was not there at first was written on the way, and a directory that is gone was removed when
nothing lay in it.

## Main results

* `History.carriesFiles`: a history loses no file.
* `History.origin`: where a file comes from.
* `History.dir_or_removed`: why a directory is gone.
-/

namespace ElementModules.Tree

variable {t t' u v : Tree} {a b x y : Address} {c d : Content} {p s : Path}

/-- Something that happens to a node of a tree. -/
inductive Event
  /-- A directory is made. -/
  | made (a : Address)
  /-- A file moves. -/
  | moved (a b : Address)
  /-- A file is written. -/
  | wrote (a : Address) (c : Content)
  /-- A directory goes. -/
  | removed (a : Address)

namespace Event

variable {e : Event}

/-- What must be the case at the moment of an event. -/
def IsPossible (t : Tree) : Event → Prop
  | made a => t.get? a = none
  | moved a b => (∃ c, t.get? a = some (.file c)) ∧ t.get? b = none
  | wrote a _ => t.get? a = none
  | removed a => t.get? a = some .dir ∧ t.hasChildren a = false

/-- What stands at an address after an event. -/
def after (t : Tree) : Event → Address → Option Node
  | made a, x => if x = a then some .dir else t.get? x
  | moved a b, x => if x = a then none else if x = b then t.get? a else t.get? x
  | wrote a c, x => if x = a then some (.file c) else t.get? x
  | removed a, x => if x = a then none else t.get? x

/-- Where an event carries a file. -/
def carry : Event → Address → Address
  | moved a b, x => if x = a then b else x
  | _, x => x

/-! ### Single events -/

theorem after_carry (h : e.IsPossible t) (hx : t.get? x = some (.file c)) :
    e.after t (e.carry x) = some (.file c) := by
  cases e with
  | made a | wrote a c =>
    have hne : x ≠ a := by
      rintro rfl
      rw [h] at hx
      cases hx
    exact (if_neg hne).trans hx
  | moved a b =>
    obtain ⟨⟨d, ha⟩, hb⟩ := h
    rw [carry, after]
    by_cases hxa : x = a
    · rw [if_pos hxa, if_neg, if_pos rfl, ← hxa, hx]
      rintro rfl
      rw [hb] at ha
      cases ha
    · rw [if_neg hxa, if_neg hxa, if_neg, hx]
      rintro rfl
      rw [hb] at hx
      cases hx
  | removed a =>
    have hne : x ≠ a := by
      rintro rfl
      rw [h.1] at hx
      cases hx
    exact (if_neg hne).trans hx

theorem carry_injective (h : e.IsPossible t) (hx : t.get? x = some (.file c))
    (hy : t.get? y = some (.file d)) (he : e.carry x = e.carry y) : x = y := by
  cases e with
  | made a | wrote a c | removed a => exact he
  | moved a b =>
    have hfree : ∀ {z : Address} {k : Content}, t.get? z = some (.file k) → z ≠ b := by
      rintro z k hz rfl
      rw [h.2] at hz
      cases hz
    rw [carry, carry] at he
    split_ifs at he with hxa hya hya
    · rw [hxa, hya]
    · exact absurd he.symm (hfree hy)
    · exact absurd he (hfree hx)
    · exact he

theorem carry_of_forall_ne (h : ∀ b, e ≠ moved x b) : e.carry x = x := by
  cases e with
  | made a | wrote a c | removed a => rfl
  | moved a b => exact if_neg fun hc => h b (by rw [hc])

/-- Where a file comes from: it was there, or it is written. -/
theorem origin (h : e.IsPossible t) (hx : e.after t x = some (.file c)) :
    (∃ y, t.get? y = some (.file c) ∧ e.carry y = x) ∨ e = wrote x c := by
  cases e with
  | made a =>
    rw [after] at hx
    split_ifs at hx
    · cases hx
    · exact .inl ⟨x, hx, rfl⟩
  | moved a b =>
    rw [after] at hx
    split_ifs at hx with hxa hxb
    · exact .inl ⟨a, hx, (if_pos rfl).trans hxb.symm⟩
    · exact .inl ⟨x, hx, if_neg hxa⟩
  | wrote a d =>
    rw [after] at hx
    split_ifs at hx with hxa
    · obtain rfl := Node.file.inj (Option.some.inj hx)
      exact .inr (by rw [hxa])
    · exact .inl ⟨x, hx, rfl⟩
  | removed a =>
    rw [after] at hx
    split_ifs at hx
    exact .inl ⟨x, hx, rfl⟩

/-- A directory stays, or it is removed. -/
theorem dir_or_removed (h : e.IsPossible t) (hx : t.get? x = some .dir) :
    e.after t x = some .dir ∨ e = removed x := by
  cases e with
  | made a =>
    rw [after]
    split_ifs
    · exact .inl rfl
    · exact .inl hx
  | moved a b =>
    obtain ⟨⟨d, ha⟩, hb⟩ := h
    rw [after, if_neg, if_neg]
    · exact .inl hx
    · rintro rfl
      rw [hb] at hx
      cases hx
    · rintro rfl
      rw [ha] at hx
      cases hx
  | wrote a c =>
    rw [after, if_neg]
    · exact .inl hx
    · rintro rfl
      rw [h] at hx
      cases hx
  | removed a =>
    rw [after]
    split_ifs with hxa
    · exact .inr (by rw [hxa])
    · exact .inl hx

end Event

/-- Events that lead from one tree to another. -/
inductive History : Tree → List Event → Tree → Prop
  | refl (t : Tree) : History t [] t
  | step {t u v : Tree} {e : Event} {es : List Event} (possible : e.IsPossible t)
      (get?_eq : ∀ x, u.get? x = e.after t x) (rest : History u es v) : History t (e :: es) v

/-- Where events carry a file. -/
def carry (es : List Event) (x : Address) : Address := es.foldl (fun x e => e.carry x) x

/-- A map of the files of a tree to files with the same contents in another one, no two to one. -/
structure CarriesFiles (σ : Address → Address) (t t' : Tree) : Prop where
  file : ∀ x c, t.get? x = some (.file c) → t'.get? (σ x) = some (.file c)
  injective : ∀ x y c d, t.get? x = some (.file c) → t.get? y = some (.file d) → σ x = σ y → x = y

namespace History

variable {es es' : List Event}

theorem single {e : Event} (h : e.IsPossible t) (hget : ∀ x, u.get? x = e.after t x) :
    History t [e] u := .step h hget (.refl u)

theorem trans (h : History t es u) (h' : History u es' v) : History t (es ++ es') v := by
  induction h with
  | refl => exact h'
  | step hpossible hget _ ih => exact .step hpossible hget (ih h')

/-- The moment of an event. -/
theorem exists_moment {e : Event} {before later : List Event}
    (h : History t (before ++ e :: later) v) : ∃ u, History t before u ∧ e.IsPossible u := by
  induction before generalizing t with
  | nil =>
    cases h with
    | step hpossible _ _ => exact ⟨t, .refl t, hpossible⟩
  | cons e' before ih =>
    cases h with
    | step hpossible hget hrest =>
      obtain ⟨u, hu, he⟩ := ih hrest
      exact ⟨u, .step hpossible hget hu, he⟩

/-- **A history loses no file**, and it overwrites none. -/
theorem carriesFiles (h : History t es v) : CarriesFiles (carry es) t v := by
  induction h with
  | refl t => exact ⟨fun _ _ => id, fun _ _ _ _ _ _ => id⟩
  | @step t u v e es hpossible hget _ ih =>
    have hcarried : ∀ {x c}, t.get? x = some (.file c) → u.get? (e.carry x) = some (.file c) :=
      fun hx => (hget _).trans (Event.after_carry hpossible hx)
    exact ⟨fun x c hx => ih.file _ c (hcarried hx), fun x y c d hx hy he =>
      Event.carry_injective hpossible hx hy (ih.injective _ _ c d (hcarried hx) (hcarried hy) he)⟩

/-- A file that never moves stays where it is. -/
theorem carry_eq_self (h : ∀ y, Event.moved x y ∉ es) : carry es x = x := by
  induction es with
  | nil => rfl
  | cons e es ih =>
    have he : e.carry x = x := Event.carry_of_forall_ne fun y hy => h y (hy ▸ List.mem_cons_self)
    have hrest := ih fun y hy => h y (List.mem_cons_of_mem _ hy)
    rw [carry, List.foldl_cons, he]
    exact hrest

/-- **Where a file comes from**: it was there at first, or it was written on the way. -/
theorem origin (h : History t es v) (hx : v.get? x = some (.file c)) :
    (∃ y, t.get? y = some (.file c) ∧ carry es y = x)
      ∨ ∃ before a later, es = before ++ .wrote a c :: later ∧ carry later a = x := by
  induction h with
  | refl => exact .inl ⟨x, hx, rfl⟩
  | step hpossible hget _ ih =>
    rcases ih hx with ⟨y, hy, rfl⟩ | ⟨before, a, later, rfl, ha⟩
    · rcases Event.origin hpossible ((hget y).symm.trans hy) with ⟨z, hz, rfl⟩ | rfl
      · exact .inl ⟨z, hz, rfl⟩
      · exact .inr ⟨[], y, _, rfl, rfl⟩
    · exact .inr ⟨_ :: before, a, later, rfl, ha⟩

/-- **Why a directory is gone**: it was removed. -/
theorem dir_or_removed (h : History t es v) (hx : t.get? x = some .dir) :
    v.get? x = some .dir ∨ ∃ before later, es = before ++ .removed x :: later := by
  induction h with
  | refl => exact .inl hx
  | step hpossible hget _ ih =>
    rcases Event.dir_or_removed hpossible hx with hdir | rfl
    · rcases ih ((hget x).trans hdir) with hv | ⟨before, later, rfl⟩
      · exact .inl hv
      · exact .inr ⟨_ :: before, later, rfl⟩
    · exact .inr ⟨[], _, rfl⟩

end History

end ElementModules.Tree
