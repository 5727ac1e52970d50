import ElementModules.Proofs.Script.Declarations

/-!
# Blanks between statements

**Squeezing** a scanned text leaves out the ASCII blanks at its start, behind a semicolon and behind
other ASCII blanks, wherever they are code outside all brackets. No declaration depends on them
(`declaration?_eq_squeezed`): in the head of a binding only the presence of a blank counts, and the
inside of a literal is not touched.

Since a closed text ends with a semicolon or a line feed, squeezing is done part by part behind
closed texts (`Closed.squeezed_append`), and a line feed behind a closed text vanishes. Texts that
differ in the blank lines between their statements only are squeezed to the same marks.

## Main results

* `Closed.squeezed_append`, `Closed.squeezed_append_newline`: squeezing joined texts.
* `declaration?_congr`: texts that are squeezed alike declare the same.
-/

namespace ElementModules.Script

open Text

/-- An ASCII blank in code outside all brackets. -/
def isLoose (m : Mark) : Bool := m.isTopLevel && isAsciiBlank m.char

/-- Whether the blanks behind a mark do not count. -/
def loosens (m : Mark) : Bool := m.isTopLevel && (isAsciiBlank m.char || m.char = ';')

/-- The marks without the blanks that do not count; `loose` tells whether those at the start do not
count. -/
def squeeze (loose : Bool) : List Mark → List Mark
  | [] => []
  | m :: ms => if loose && isLoose m then squeeze true ms else m :: squeeze (loosens m) ms

/-- The marks of a text without the blanks that do not count. -/
def squeezed (t : Text) : List Mark := squeeze true (marks t)

theorem loosens_of_isLoose {m : Mark} (h : isLoose m = true) : loosens m = true := by
  simp only [isLoose, Bool.and_eq_true] at h
  simp [loosens, h]

theorem squeeze_append (b : Bool) (ms : List Mark) (m : Mark) (ns : List Mark) :
    squeeze b (ms ++ m :: ns) = squeeze b (ms ++ [m]) ++ squeeze (loosens m) ns := by
  induction ms generalizing b with
  | nil =>
    rw [List.nil_append, List.nil_append, squeeze, squeeze]
    split
    · rename_i h
      simp only [Bool.and_eq_true] at h
      rw [loosens_of_isLoose h.2]
      rfl
    · rfl
  | cons x ms ih =>
    rw [List.cons_append, List.cons_append, squeeze, squeeze]
    split
    · exact ih true
    · rw [ih]
      rfl

/-- Squeezing goes part by part behind a closed text. -/
theorem Closed.squeezed_append {a : Text} (h : Closed a) (b : Text) :
    squeezed (a ++ b) = squeezed a ++ squeezed b := by
  have hm : ∃ q m, marks a = q ++ [m] ∧ loosens m = true := by
    rcases h with ⟨q, rfl, hq⟩ | ⟨q, rfl, hq⟩
    · exact ⟨marks q, _, marks_concat hq (by decide), rfl⟩
    · exact ⟨marks q, _, marks_concat hq (by decide), rfl⟩
  obtain ⟨q, m, hq, hl⟩ := hm
  rw [squeezed, h.marks_append, hq, List.append_assoc, List.singleton_append, squeeze_append, hl,
    squeezed, hq]
  rfl

/-- Squeezing goes from left to right. -/
theorem exists_squeeze_append (b : Bool) (ms ns : List Mark) :
    ∃ r, squeeze b (ms ++ ns) = squeeze b ms ++ r := by
  induction ms generalizing b with
  | nil => exact ⟨_, rfl⟩
  | cons m ms ih =>
    rw [List.cons_append, squeeze, squeeze]
    split
    · exact ih true
    · obtain ⟨r, hr⟩ := ih (loosens m)
      exact ⟨r, by rw [hr, List.cons_append]⟩

@[simp] theorem squeezed_nil : squeezed [] = [] := rfl

/-- A line feed behind a closed text does not count. -/
theorem Closed.squeezed_append_newline {a : Text} (h : Closed a) :
    squeezed (a ++ ['\n']) = squeezed a := by
  rw [h.squeezed_append]
  exact List.append_nil _

/-! ### Heads and bodies -/

theorem not_isLoose_of_not_blank {m : Mark} (h : isAsciiBlank m.char = false) :
    isLoose m = false := by
  simp [isLoose, h]

theorem isLoose_of_closes {d : Nat} {x : Mark} (h : closes d x = true) : isLoose x = false := by
  simp only [closes, Bool.and_eq_true, isCloser, Bool.or_eq_true, decide_eq_true_eq] at h
  rcases h.1.1 with (hc | hc) | hc <;> exact not_isLoose_of_not_blank (by rw [hc]; rfl)

theorem loosens_of_isHeadChar {m : Mark} (h : IsHeadChar m.char) : loosens m = false := by
  have hs : m.char ≠ ';' := by
    intro hc
    have := h.2
    rw [hc] at this
    exact absurd this (by decide)
  simp [loosens, h.1, hs]

theorem chars_cons (m : Mark) (ms : List Mark) : chars (m :: ms) = m.char :: chars ms := rfl

/-- The view of a text does not see the blanks that do not count. -/
theorem headView_squeeze (ms : List Mark) {loose afterBlank : Bool}
    (h : loose = true → afterBlank = true) :
    headView afterBlank (chars (squeeze loose ms)) = headView afterBlank (chars ms) := by
  induction ms generalizing loose afterBlank with
  | nil => rfl
  | cons m ms ih =>
    rw [squeeze]
    rcases headChar_cases m.char with hm | hm | hm
    · have hnext : headView true (chars (squeeze (loosens m) ms)) = headView true (chars ms) :=
        ih fun _ => rfl
      split
      · rename_i hl
        simp only [Bool.and_eq_true] at hl
        rw [h hl.1, chars_cons, headView_true_blank hm]
        exact ih fun _ => rfl
      · cases afterBlank
        · rw [chars_cons, chars_cons, headView_blank hm, headView_blank hm, hnext]
        · rw [chars_cons, chars_cons, headView_true_blank hm, headView_true_blank hm, hnext]
    · rw [if_neg (by simp [not_isLoose_of_not_blank (isAsciiBlank_of_endsHead hm)]), chars_cons,
        chars_cons, headView_ends hm, headView_ends hm]
    · rw [if_neg (by simp [not_isLoose_of_not_blank hm.1]), chars_cons, chars_cons,
        headView_cons hm, headView_cons hm, ih]
      rw [loosens_of_isHeadChar hm]
      exact fun hf => Bool.noConfusion hf

theorem isHeadChar_of_mayStartBinding {before : Option Char} {m : Mark}
    (h : mayStartBinding before m = true) : IsHeadChar m.char := by
  simp only [mayStartBinding, Bool.and_eq_true, Bool.or_eq_true, decide_eq_true_eq] at h
  rcases h.1.1 with ((hc | hc) | hc) | hc <;> rw [hc] <;> decide

theorem startsWord_of_loosens {m : Mark} (h : loosens m = true) :
    Token.startsWord (some m.char) = true := by
  simp only [loosens, isAsciiBlank, Bool.and_eq_true, Bool.or_eq_true, decide_eq_true_eq] at h
  rcases h.2 with ((((hc | hc) | hc) | hc) | hc) | hc <;> rw [hc] <;> decide

/-- The first head is found in the same place. -/
theorem firstHead_squeeze (ms : List Mark) {loose : Bool} {before before' : Option Char}
    (hb : Token.startsWord before = Token.startsWord before')
    (hl : loose = true → Token.startsWord before = true) :
    firstHead before (squeeze loose ms) = squeeze false (firstHead before' ms) := by
  induction ms generalizing loose before before' with
  | nil => rfl
  | cons m ms ih =>
    rw [squeeze]
    split
    · rename_i h
      simp only [Bool.and_eq_true] at h
      have hq : ∀ b, mayStartBinding b m = false := by
        intro b
        by_contra hm
        have hc := isHeadChar_of_mayStartBinding (Bool.not_eq_false _ ▸ hm)
        rw [not_isLoose_of_not_blank hc.1] at h
        exact Bool.noConfusion h.2
      have hw := startsWord_of_loosens (loosens_of_isLoose h.2)
      rw [firstHead, startsBinding, hq, if_neg (by simp)]
      exact ih ((hl h.1).trans hw.symm) fun _ => hl h.1
    · rw [firstHead, firstHead]
      have hs : startsBinding before (m :: squeeze (loosens m) ms)
          = startsBinding before' (m :: ms) := by
        by_cases hm : mayStartBinding before m = true
        · have hc := isHeadChar_of_mayStartBinding hm
          refine startsBinding_congr hb ?_
          rw [chars_cons, chars_cons, headView_cons hc, headView_cons hc, headView_squeeze]
          rw [loosens_of_isHeadChar hc]
          exact fun hf => Bool.noConfusion hf
        · simp only [Bool.not_eq_true] at hm
          have hm' : mayStartBinding before' m = false := by
            rwa [mayStartBinding, ← hb]
          rw [startsBinding, startsBinding, hm, hm']
          rfl
      rw [hs]
      split
      · simp [squeeze]
      · exact ih rfl startsWord_of_loosens

theorem openingMarks_squeeze (u : List Mark) (loose : Bool) :
    openingMarks (squeeze loose u) = squeeze false (openingMarks u) := by
  induction u generalizing loose with
  | nil => rfl
  | cons m u ih =>
    by_cases hm : m.char = '\x7b'
    · have hn : isLoose m = false := not_isLoose_of_not_blank (by rw [hm]; rfl)
      have ho : ∀ v, openingMarks (m :: v) = m :: v := by
        intro v
        rw [openingMarks, List.dropWhile_cons_of_neg (by simp [hm])]
      rw [squeeze, if_neg (by simp [hn]), ho, ho, squeeze, if_neg (by simp)]
    · have ho : ∀ v, openingMarks (m :: v) = openingMarks v := by
        intro v
        rw [openingMarks, List.dropWhile_cons_of_pos (by simp [hm])]
        rfl
      rw [squeeze, ho]
      split
      · exact ih true
      · rw [ho]
        exact ih _

/-- The inside of a bracket is not touched. -/
theorem squeeze_inside {p : List Mark} (hp : ∀ m ∈ p, 0 < m.depth) (r : List Mark) :
    squeeze false (p ++ r) = p ++ squeeze false r := by
  induction p with
  | nil => rfl
  | cons m p ih =>
    have hd := hp m List.mem_cons_self
    have hm : loosens m = false := by simp [loosens, Mark.isTopLevel]; omega
    rw [List.cons_append, squeeze, if_neg (by simp), hm, ih fun x hx => hp x (by simp [hx])]
    rfl

theorem bodyAt?_squeeze {o : Mark} {r : List Mark} {s : State} {t : Text}
    (h : o :: r = marksFrom s t) (ho : o.char = '\x7b') :
    bodyAt? (squeeze false (o :: r)) = bodyAt? (o :: r) := by
  have hop : isOpener o.char = true := by rw [ho]; rfl
  have hl : loosens o = false := by simp [loosens, ho, isAsciiBlank]
  rw [squeeze, if_neg (by simp), hl]
  by_cases hc : o.isCode = true
  · have hin := depth_of_closeAfter? h hop hc
    have hr := List.takeWhile_append_dropWhile (p := fun m => !closes (o.depth + 1) m) (l := r)
    cases hd : r.dropWhile fun m => !closes (o.depth + 1) m with
    | nil =>
      rw [hd, List.append_nil] at hr
      rw [hr] at hin
      have := squeeze_inside hin []
      rw [List.append_nil, squeeze, List.append_nil] at this
      rw [this]
    | cons x z =>
      have hx : closes (o.depth + 1) x = true := by
        have := List.head?_dropWhile_not (fun m => !closes (o.depth + 1) m) r
        rw [hd] at this
        simpa using this
      have hloose := isLoose_of_closes hx
      have hbody : ∀ y, bodyAt? (o :: ((r.takeWhile fun m => !closes (o.depth + 1) m) ++ x :: y))
          = bodyAt? (o :: ((r.takeWhile fun m => !closes (o.depth + 1) m) ++ [x])) := by
        intro y
        have hsome : (closeAfter? (o :: ((r.takeWhile fun m => !closes (o.depth + 1) m)
            ++ [x]))).isSome = true := by
          rw [closeAfter?, if_pos (by simp [hop, hc]), Option.isSome_map, closeIndex?_eq,
            List.findIdx?_isSome]
          simp [hx]
        obtain ⟨k, hk⟩ := Option.isSome_iff_exists.1 hsome
        have := bodyAt?_append ((closeAfter?_append hk y).2.trans hk.symm)
        rwa [List.cons_append, List.append_assoc, List.singleton_append] at this
      rw [hd] at hr
      rw [← hr, squeeze_inside hin, squeeze, if_neg (by simp), hbody]
      exact (hbody z).symm
  · have hnone : ∀ v, bodyAt? (o :: v) = none := by
      intro v
      rw [bodyAt?, closeAfter?, if_neg (by simp [hc])]
      rfl
    rw [hnone, hnone]

/-- What is declared does not depend on the blanks that do not count. -/
theorem declarationAt_squeeze {u : List Mark} {s : State} {t : Text} (h : u <:+ marksFrom s t) :
    declarationAt (squeeze false u) = declarationAt u := by
  refine declarationAt_congr (headView_squeeze u fun hf => Bool.noConfusion hf) ?_
  rw [openingMarks_squeeze]
  cases ho : openingMarks u with
  | nil => rfl
  | cons o r =>
    have hsuf : o :: r <:+ marksFrom s t := ho ▸ (List.dropWhile_suffix _).trans h
    obtain ⟨s', t', hs, -⟩ := exists_scan_of_suffix hsuf
    exact bodyAt?_squeeze hs (head?_openingMarks (u := u) (by rw [ho]; rfl))

/-- **What a script declares is read off its squeezed marks.** -/
theorem declaration?_eq_squeezed (t : Text) :
    declaration? t = declarationAt (firstHead none (squeezed t)) := by
  rw [declaration?_eq, squeezed, firstHead_squeeze _ rfl fun _ => rfl,
    declarationAt_squeeze (firstHead_suffix none (marks t))]

/-- Texts that are squeezed alike declare the same. -/
theorem declaration?_congr {t u : Text} (h : squeezed t = squeezed u) :
    declaration? t = declaration? u := by
  rw [declaration?_eq_squeezed, declaration?_eq_squeezed, h]

end ElementModules.Script
