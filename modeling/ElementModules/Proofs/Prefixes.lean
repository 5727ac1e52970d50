import Mathlib.Data.List.TakeWhile

/-!
# Prefixes of lists

What `takeWhile` takes from a joined list whose second part begins with an element that it refuses,
and where the last element outside a class stands.
-/

namespace ElementModules

variable {α : Type} {p : α → Bool}

/-- An element that is refused ends what is taken. -/
theorem takeWhile_append_cons {x : α} (h : p x = false) (a b : List α) :
    (a ++ x :: b).takeWhile p = a.takeWhile p := by
  rw [List.takeWhile_append, List.takeWhile_cons_of_neg (by simp [h]), List.append_nil]
  split
  · rename_i hl
    have hpre : a.takeWhile p <+: a := List.takeWhile_prefix p
    exact (hpre.eq_of_length hl).symm
  · rfl

/-- What is taken passes every filter that passes what is taken. -/
theorem takeWhile_prefix_filter {q : α → Bool} (h : ∀ x, p x = true → q x = true) (a : List α) :
    a.takeWhile p <+: a.filter q := by
  induction a with
  | nil => exact List.prefix_rfl
  | cons x a ih =>
    rw [List.takeWhile_cons]
    split
    · rename_i hx
      rw [List.filter_cons_of_pos (h x hx)]
      exact List.prefix_cons_inj x |>.2 ih
    · exact List.nil_prefix

/-- What stands behind an element that a list lacks does not make the list a beginning. -/
theorem isPrefixOf_append_of_not_mem [BEq α] [LawfulBEq α] {w : List α} {c : α} (h : c ∉ w)
    (u v : List α) : w.isPrefixOf (u ++ c :: v) = w.isPrefixOf u := by
  rw [Bool.eq_iff_iff, List.isPrefixOf_iff_prefix, List.isPrefixOf_iff_prefix]
  refine ⟨fun hp => ?_, fun hp => hp.trans (List.prefix_append u _)⟩
  rcases Nat.lt_or_ge u.length w.length with hlt | hle
  · obtain ⟨r, hr⟩ := hp
    have hc : w[u.length]? = some c := by
      have hw : (w ++ r)[u.length]? = w[u.length]? := List.getElem?_append_left hlt
      rw [← hw, hr, List.getElem?_append_right (Nat.le_refl _), Nat.sub_self]
      rfl
    exact absurd (List.mem_of_getElem? hc) h
  · exact List.prefix_of_prefix_length_le hp (List.prefix_append u _) hle

/-- A beginning that is not the whole list is a beginning of the list without its last element. -/
theorem prefix_dropLast_of_ne {a b : List α} (h : a <+: b) (hne : a ≠ b) : a <+: b.dropLast := by
  obtain ⟨c, rfl⟩ := h
  have hc : c ≠ [] := fun he => hne (by rw [he, List.append_nil])
  rw [List.dropLast_append_of_ne_nil hc]
  exact List.prefix_append a _

/-- The last element outside a class, with what stands on both sides of it. -/
theorem append_cons_inj_of_class {a a' g g' : List α} {x x' : α} (h : a ++ x :: g = a' ++ x' :: g')
    (hx : p x = false) (hx' : p x' = false) (hg : ∀ y ∈ g, p y = true) (hg' : ∀ y ∈ g', p y = true) :
    a = a' ∧ x = x' ∧ g = g' := by
  have hend : ∀ {a g : List α} {x : α}, p x = false → (∀ y ∈ g, p y = true) →
      (a ++ x :: g).reverse.takeWhile p = g.reverse := by
    intro a g x hx hg
    rw [List.reverse_append, List.reverse_cons, List.append_assoc, List.singleton_append,
      takeWhile_append_cons hx, List.takeWhile_eq_self_iff]
    simpa using hg
  have hrev : g = g' := by
    rw [← List.reverse_inj, ← hend hx hg, h, hend hx' hg']
  subst hrev
  obtain ⟨ha, hxs⟩ := List.append_inj' h rfl
  exact ⟨ha, (List.cons.inj hxs).1, rfl⟩

end ElementModules
