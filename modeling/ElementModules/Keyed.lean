import ElementModules.Text.Basic

/-!
# Keyed lists

Lists of pairs in which a key leads to a value. Putting a pair replaces the value of its key in
place, or adds the pair at the end, so a key keeps its first place and has its last value.

Main statements: `lookup_put`, putting a pair changes the answer for that key alone;
`lookup_filter`, filtering by keys takes away the answers for the others; and `distinct_settle`,
settled pairs have distinct keys.
-/

namespace ElementModules.Keyed

variable {κ α : Type} [BEq κ] [LawfulBEq κ]

/-- Replaces the value of a key in place, or adds the pair at the end. -/
def put (key : κ) (value : α) : List (κ × α) → List (κ × α)
  | [] => [(key, value)]
  | (k, v) :: rest => if k == key then (k, value) :: rest else (k, v) :: put key value rest

/-- The pairs with each key in its first place and with its last value. -/
def settle (pairs : List (κ × α)) : List (κ × α) :=
  pairs.foldl (fun done p => put p.1 p.2 done) []

/-- The list answers to the key that was put with its value, and to all others as before. -/
theorem lookup_put (key : κ) (value : α) (id : κ) (pairs : List (κ × α)) :
    (put key value pairs).lookup id = if id == key then some value else pairs.lookup id := by
  induction pairs with
  | nil => cases h : id == key <;> simp [put, List.lookup_cons, h]
  | cons e pairs ih =>
    obtain ⟨k, v⟩ := e
    unfold put
    by_cases hk : k = key
    · subst hk
      cases h : id == k <;> simp [List.lookup_cons, h]
    · rw [if_neg (by simpa using hk)]
      by_cases hi : id = k
      · subst hi
        simp [hk]
      · have hb : (id == k) = false := beq_eq_false_iff_ne.2 hi
        simp only [List.lookup_cons, hb]
        exact ih

/-- A key of a list that was filtered by keys leads where it led before, if it was kept. -/
theorem lookup_filter (q : κ → Bool) (id : κ) (pairs : List (κ × α)) :
    (pairs.filter fun p => q p.1).lookup id = if q id then pairs.lookup id else none := by
  induction pairs with
  | nil => simp
  | cons e pairs ih =>
    obtain ⟨k, v⟩ := e
    rw [List.filter_cons]
    by_cases hi : id = k
    · subst hi
      cases hq : q id <;> simp [hq, ih]
    · have hb : (id == k) = false := beq_eq_false_iff_ne.2 hi
      cases hq : q k <;> simp [List.lookup_cons, hb, ih]

/-- Whether no two pairs have the same key. -/
abbrev Distinct (pairs : List (κ × α)) : Prop :=
  (pairs.map Prod.fst).Nodup

/-- The keys after putting a pair: its own key is added if it was not there. -/
theorem keys_put (key : κ) (value : α) (pairs : List (κ × α)) :
    (put key value pairs).map Prod.fst
      = if key ∈ pairs.map Prod.fst then pairs.map Prod.fst else pairs.map Prod.fst ++ [key] := by
  induction pairs with
  | nil => simp [put]
  | cons e pairs ih =>
    obtain ⟨k, v⟩ := e
    unfold put
    by_cases hk : k = key
    · simp [hk]
    · rw [if_neg (by simpa using hk), List.map_cons, ih, List.map_cons]
      have hiff : key ∈ (k, v).1 :: pairs.map Prod.fst ↔ key ∈ pairs.map Prod.fst := by
        simp [Ne.symm hk]
      simp only [hiff]
      split <;> rfl

theorem distinct_put {key : κ} {value : α} {pairs : List (κ × α)} (h : Distinct pairs) :
    Distinct (put key value pairs) := by
  unfold Distinct
  rw [keys_put]
  split
  · exact h
  · next hk =>
    refine List.nodup_append.2 ⟨h, by simp, fun a ha b hb => ?_⟩
    rw [List.mem_singleton.1 hb]
    exact fun e => hk (e ▸ ha)

/-- Settled pairs have distinct keys. -/
theorem distinct_settle (pairs : List (κ × α)) : Distinct (settle pairs) := by
  suffices h : ∀ done : List (κ × α), Distinct done →
      Distinct (pairs.foldl (fun done p => put p.1 p.2 done) done) from h [] List.nodup_nil
  induction pairs with
  | nil => exact fun _ h => h
  | cons p pairs ih => exact fun done h => ih _ (distinct_put h)

end ElementModules.Keyed
