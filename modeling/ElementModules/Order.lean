import ElementModules.Text.Basic

/-!
# Lexicographic order

Lists are ordered by their first difference, a list before its extensions. Texts are ordered by
their characters in this way; that is the order of their UTF-8 bytes, too, because the bytes of a
character grow with its code point.

Main statements: `lexLe_total`, `lexLe_antisymm` and `lexLe_trans`, the order is linear if the order
of the items is.
-/

namespace ElementModules

/-- A strict linear order that can be computed. -/
structure StrictLinear {α : Type} (lt : α → α → Bool) : Prop where
  irrefl : ∀ a, lt a a = false
  trans : ∀ a b c, lt a b → lt b c → lt a c
  connected : ∀ a b, a ≠ b → lt a b ∨ lt b a

/-- Whether `s` comes before `t` or equals it. -/
def lexLe {α : Type} [DecidableEq α] (lt : α → α → Bool) : List α → List α → Bool
  | [], _ => true
  | _ :: _, [] => false
  | a :: s, b :: t => lt a b || (a = b && lexLe lt s t)

/-- Whether `s` comes before `t`. -/
def lexLt {α : Type} [DecidableEq α] (lt : α → α → Bool) (s t : List α) : Bool :=
  s ≠ t && lexLe lt s t

variable {α : Type} [DecidableEq α] {lt : α → α → Bool}

theorem lexLe_total (h : StrictLinear lt) (s t : List α) : lexLe lt s t || lexLe lt t s := by
  induction s generalizing t with
  | nil => simp [lexLe]
  | cons a s ih =>
    cases t with
    | nil => simp [lexLe]
    | cons b t =>
      by_cases e : a = b
      · subst e
        simpa [lexLe, h.irrefl] using ih t
      · rcases h.connected a b e with hab | hab <;> simp [lexLe, hab]

theorem lexLe_antisymm (h : StrictLinear lt) {s t : List α} (hst : lexLe lt s t)
    (hts : lexLe lt t s) : s = t := by
  induction s generalizing t with
  | nil => cases t with
    | nil => rfl
    | cons b t => simp [lexLe] at hts
  | cons a s ih =>
    cases t with
    | nil => simp [lexLe] at hst
    | cons b t =>
      simp only [lexLe, Bool.or_eq_true, Bool.and_eq_true, decide_eq_true_eq] at hst hts
      rcases hst with hab | ⟨rfl, hst⟩
      · rcases hts with hba | ⟨rfl, -⟩
        · have := h.trans _ _ _ hab hba
          simp [h.irrefl] at this
        · simp [h.irrefl] at hab
      · rcases hts with hba | ⟨-, hts⟩
        · simp [h.irrefl] at hba
        · rw [ih hst hts]

theorem lexLe_trans (h : StrictLinear lt) {s t u : List α} (hst : lexLe lt s t)
    (htu : lexLe lt t u) : lexLe lt s u := by
  induction s generalizing t u with
  | nil => simp [lexLe]
  | cons a s ih =>
    cases t with
    | nil => simp [lexLe] at hst
    | cons b t =>
      cases u with
      | nil => simp [lexLe] at htu
      | cons c u =>
        simp only [lexLe, Bool.or_eq_true, Bool.and_eq_true, decide_eq_true_eq] at hst htu ⊢
        rcases hst with hab | ⟨rfl, hst⟩
        · rcases htu with hbc | ⟨rfl, -⟩
          · exact .inl (h.trans _ _ _ hab hbc)
          · exact .inl hab
        · rcases htu with hbc | ⟨rfl, htu⟩
          · exact .inl hbc
          · exact .inr ⟨rfl, ih hst htu⟩

/-- The strict order of lists is linear if the order of the items is. -/
theorem StrictLinear.lexLt (h : StrictLinear lt) : StrictLinear (lexLt lt) where
  irrefl s := by simp [ElementModules.lexLt]
  trans s t u hst htu := by
    simp only [ElementModules.lexLt, Bool.and_eq_true, ne_eq, decide_not, Bool.not_eq_eq_eq_not,
      Bool.not_true, decide_eq_false_iff_not] at *
    refine ⟨fun e => ?_, lexLe_trans h hst.2 htu.2⟩
    subst e
    exact hst.1 (lexLe_antisymm h hst.2 htu.2)
  connected s t hne := by
    have := lexLe_total h s t
    simp only [Bool.or_eq_true] at this
    rcases this with h | h
    · exact .inl (by simp [ElementModules.lexLt, hne, h])
    · exact .inr (by simp [ElementModules.lexLt, Ne.symm hne, h])

/-- The order of characters by their code points. -/
def charLt (a b : Char) : Bool := a < b

theorem charLt_strictLinear : StrictLinear charLt where
  irrefl a := by simp [charLt]
  trans a b c hab hbc := by
    simp only [charLt, decide_eq_true_eq] at *
    exact Char.lt_trans hab hbc
  connected a b hne := by
    have hval : a.val.toNat ≠ b.val.toNat := fun e => hne (Char.ext (UInt32.toNat_inj.1 e))
    simp only [charLt, decide_eq_true_eq, Char.lt_def, UInt32.lt_iff_toNat_lt]
    omega

/-- The order of texts by their characters. -/
def Text.le (s t : Text) : Bool := lexLe charLt s t

end ElementModules
