import ElementModules.Proofs.Script.Names
import ElementModules.Proofs.Script.Places
import ElementModules.Proofs.Script.Squeezing
import ElementModules.Proofs.Script.Written

/-!
# Where a declaration ends

Some marks **declare** if their first head belongs to a literal that is closed among them. What
follows is then of no account (`Declares.declarationAt_append`). For the marks at the start of a text
with a closed first literal this says that the literal ends among them (`declares_iff`).

## Main results

* `declares_iff`: the beginnings of a text that declare are those that hold the first literal.
* `ClosedBy.declaration?_append`: a declaration does not depend on what follows a closed text.
* `Declares.squeeze`: declaring does not depend on the blanks that do not count.
-/

namespace ElementModules.Script

open Text

/-- Whether some marks hold the first literal up to its closing brace. -/
def Declares (ms : List Mark) : Prop :=
  firstHead none ms ≠ [] ∧ (closeAfter? (openingMarks (firstHead none ms))).isSome = true

/-- **Behind a closed literal** nothing changes what is declared. -/
theorem Declares.declarationAt_append {ms : List Mark} (h : Declares ms) (r : List Mark) :
    declarationAt (firstHead none (ms ++ r)) = declarationAt (firstHead none ms) := by
  obtain ⟨k, hk⟩ := Option.isSome_iff_exists.1 h.2
  rw [firstHead_append h.1, Script.declarationAt_append (brace_mem_of_firstHead h.1)
    ((closeAfter?_append hk r).2.trans hk.symm)]

/-! ### The first head of joined marks -/

theorem declaration?_isSome_iff {t : Text} :
    (declaration? t).isSome = true ↔ firstHead none (marks t) ≠ [] := by
  rw [declaration?_eq, declarationAt, Option.isSome_map]
  constructor
  · intro h he
    rw [he] at h
    cases (BindingStart.exists_endsHead h).1
  · intro h
    obtain ⟨b, hb⟩ := startsBinding_firstHead h
    cases hf : firstHead none (marks t) with
    | nil => exact absurd hf h
    | cons m ms =>
      rw [hf, startsBinding, Bool.and_eq_true] at hb
      exact hb.2

/-- The first head of joined marks starts in the first part, or it is that of the second part. -/
theorem firstHead_append_cases (before : Option Char) (a b : List Mark) :
    (∃ a', a' ≠ [] ∧ firstHead before (a ++ b) = a' ++ b)
      ∨ firstHead before (a ++ b) = firstHead ((a.getLast?.map Mark.char).or before) b := by
  induction a generalizing before with
  | nil => exact .inr rfl
  | cons m a ih =>
    rw [List.cons_append, firstHead]
    split
    · exact .inl ⟨m :: a, List.cons_ne_nil m a, rfl⟩
    · refine (ih (some m.char)).imp id fun h => ?_
      rw [h]
      cases a with
      | nil => rfl
      | cons x a =>
        rw [List.getLast?_cons_cons]
        cases hl : (x :: a).getLast? with
        | none => simp at hl
        | some y => rfl

/-- A part that starts with a word has a head if the whole has none in front of it. -/
theorem firstHead_append_ne_nil {a b : List Mark}
    (ha : ∀ m ∈ a.getLast?, Token.startsWord (some m.char) = true) (hb : firstHead none b ≠ []) :
    firstHead none (a ++ b) ≠ [] := by
  rcases firstHead_append_cases none a b with ⟨a', ha', h⟩ | h
  · rw [h]
    exact List.append_ne_nil_of_left_ne_nil ha' b
  · have hs : Token.startsWord (a.getLast?.map Mark.char) = Token.startsWord none := by
      cases hl : a.getLast? with
      | none => rfl
      | some m => exact ha m hl
    rw [h, Option.or_none, firstHead_congr hs]
    exact hb

theorem Closed.startsWord_getLast? {a : Text} (h : Closed a) :
    ∀ m ∈ (marks a).getLast?, Token.startsWord (some m.char) = true := by
  intro m hm
  have hc : a.getLast? = some m.char := by
    rw [← chars_marks a, chars, List.getLast?_map, hm]
    rfl
  rcases h with h | h <;> rw [← hc, h.getLast?] <;> rfl

/-- What is declared behind a closed text is declared by the whole, or something else is. -/
theorem Closed.isSome_declaration?_append {a b : Text} (h : Closed a)
    (hd : (declaration? a).isSome = true ∨ (declaration? b).isSome = true) :
    (declaration? (a ++ b)).isSome = true := by
  rw [declaration?_isSome_iff, declaration?_isSome_iff] at hd
  rw [declaration?_isSome_iff, h.marks_append]
  rcases hd with hd | hd
  · rw [firstHead_append hd]
    exact List.append_ne_nil_of_left_ne_nil hd _
  · exact firstHead_append_ne_nil h.startsWord_getLast? hd

/-! ### The end of the first literal -/

theorem closeAfter?_of_append {o r : List Mark} {k : Nat} (h : closeAfter? (o ++ r) = some k)
    (hk : k < o.length) : closeAfter? o = some k := by
  cases o with
  | nil => cases hk
  | cons m ms =>
    rw [List.cons_append, closeAfter?] at h
    rw [closeAfter?]
    split at h
    · rename_i ho
      obtain ⟨i, hi, rfl⟩ := Option.map_eq_some_iff.1 h
      have hlt : i < ms.length := by simpa using hk
      rw [if_pos ho, closeIndex?_eq]
      rw [closeIndex?_eq, List.findIdx?_append] at hi
      cases hf : ms.findIdx? (closes (m.depth + 1)) with
      | some j => simpa [hf] using hi
      | none =>
        rw [hf] at hi
        obtain ⟨j, -, rfl⟩ := Option.map_eq_some_iff.1 (by simpa using hi : _ = some i)
        omega
    · cases h

/-- Of two beginnings of a text the one of smaller size is a beginning of the other. -/
theorem prefix_of_size_le {a b t : Text} (ha : a <+: t) (hb : b <+: t) (h : size a ≤ size b) :
    a <+: b := by
  rcases List.prefix_or_prefix_of_prefix ha hb with hp | ⟨r, rfl⟩
  · exact hp
  · have hr : size r = 0 := by
      rw [size_append] at h
      exact Nat.le_zero.1 (Nat.le_of_add_le_add_left h)
    obtain rfl := size_eq_zero.1 hr
    simp

theorem prefix_of_sizeOf_le {a b ms : List Mark} (ha : a <+: ms) (hb : b <+: ms)
    (h : sizeOf a ≤ sizeOf b) : a <+: b := by
  have hchars := prefix_of_size_le (ha.map Mark.char) (hb.map Mark.char) h
  exact List.prefix_of_prefix_length_le ha hb (by simpa using hchars.length_le)

/-- The first literal, with what stands in front of it and what follows it. -/
theorem exists_first_literal {t : Text} {l : ObjectLiteral} (h : firstLiteral? t = some l)
    (hc : l.closing = .balanced) :
    ∃ q w o k, marks t = q ++ (w ++ o) ∧ firstHead none (marks t) = w ++ o
      ∧ openingMarks (w ++ o) = o ∧ closeAfter? o = some k
      ∧ l.statement.start = sizeOf q ∧ l.span.stop = sizeOf (q ++ (w ++ o.take (k + 1))) := by
  obtain ⟨q, hq, hl⟩ := firstLiteral?_eq t
  rw [h] at hl
  obtain ⟨⟨l', n⟩, hb, rfl⟩ := Option.map_eq_some_iff.1 hl.symm
  obtain ⟨hd, hstart, hstop⟩ := boundLiteral?_eq_some hb
  obtain ⟨w, hw⟩ := List.dropWhile_suffix (l := firstHead none (marks t))
    fun m : Mark => m.char ≠ '\x7b'
  generalize hu : firstHead none (marks t) = u at *
  generalize ho : openingMarks u = o at *
  have hwo : w ++ o = u := ho ▸ hw
  have hlit : (bodyAt? o).isSome = true := by
    rw [declarationAt] at hd
    obtain ⟨b, -, he⟩ := Option.map_eq_some_iff.1 hd
    have := congrArg Declaration.body he
    simp only [ObjectLiteral.declaration, ho] at this
    rw [this, if_pos hc]
    rfl
  rw [bodyAt?] at hlit
  cases hk : closeAfter? o with
  | none => rw [hk] at hlit; cases hlit
  | some k =>
    rw [hk, Option.bind_some] at hlit
    have hbrace : (chars o)[k]? = some '\x7d' := by
      by_contra hn
      rw [if_neg hn] at hlit
      cases hlit
    have htext : (literalAt o).1 = (chars o).take (k + 1) := by
      simp only [literalAt, hk, hbrace, if_true]
    have htake : (chars o).take (k + 1) = chars (o.take (k + 1)) := by
      rw [chars, chars, List.map_take]
    have hlen : (chars u).length - o.length = (chars w).length := by
      rw [← hwo, chars_append, List.length_append, chars, chars, List.length_map, List.length_map]
      omega
    refine ⟨q, w, o, k, by rw [hwo, ← hq], hwo.symm, by rw [hwo, ho], hk, hstart, ?_⟩
    rw [hstop, hlen, htext, htake, ← hwo, chars_append, List.take_left, sizeOf_append,
      sizeOf_append, Nat.add_assoc]
    rfl

/-- A closed first literal ends in its text. -/
theorem span_stop_le {t : Text} {l : ObjectLiteral} (h : firstLiteral? t = some l)
    (hc : l.closing = .balanced) : l.span.stop ≤ size t := by
  obtain ⟨q, w, o, k, hm, -, -, -, -, hstop⟩ := exists_first_literal h hc
  have ht : marks t = q ++ (w ++ o.take (k + 1)) ++ o.drop (k + 1) := by
    rw [hm, List.append_assoc, List.append_assoc, List.take_append_drop]
  rw [hstop, ← sizeOf_marks, ht, sizeOf_append (q ++ (w ++ o.take (k + 1)))]
  exact Nat.le_add_right _ _

section Beginning

variable {t : Text} {l : ObjectLiteral} (h : firstLiteral? t = some l) (hc : l.closing = .balanced)
  {a n : List Mark} (ht : marks t = a ++ n)
include h hc ht

/-- A beginning of a text that declares holds the first literal. -/
theorem Declares.stop_le (ha : Declares a) : l.span.stop ≤ sizeOf a := by
  obtain ⟨q, w, o, k, hm, hu, ho, hk, -, hstop⟩ := exists_first_literal h hc
  obtain ⟨hne, hsome⟩ := ha
  obtain ⟨j, hj⟩ := Option.isSome_iff_exists.1 hsome
  rw [ht, firstHead_append hne] at hu
  have hoa : openingMarks (firstHead none a) ++ n = o := by
    rw [← ho, ← hu, openingMarks_append (brace_mem_of_firstHead hne)]
  obtain ⟨hjlt, hjk⟩ := closeAfter?_append hj n
  obtain rfl : k = j := Option.some.inj (hk.symm.trans (hoa ▸ hjk))
  have htake : o.take (k + 1) = (openingMarks (firstHead none a)).take (k + 1) := by
    rw [← hoa, List.take_append_of_le_length hjlt]
  have haq : a = q ++ (w ++ openingMarks (firstHead none a)) := by
    refine (List.append_left_inj n).1 ?_
    rw [← ht, hm, ← hoa]
    simp only [List.append_assoc]
  have hle : sizeOf (o.take (k + 1)) ≤ sizeOf (openingMarks (firstHead none a)) := by
    rw [htake, ← List.take_append_drop (k + 1) (openingMarks (firstHead none a)), sizeOf_append]
    exact Nat.le_trans (Nat.le_of_eq (by simp)) (Nat.le_add_right _ _)
  rw [hstop, haq]
  simp only [sizeOf_append]
  omega

/-- A beginning of a text that holds the first literal declares. -/
theorem declares_of_stop_le (hle : l.span.stop ≤ sizeOf a) : Declares a := by
  obtain ⟨q, w, o, k, hm, hu, ho, hk, -, hstop⟩ := exists_first_literal h hc
  have hwhole : q ++ (w ++ o.take (k + 1)) <+: marks t := ⟨o.drop (k + 1), by
    rw [hm, List.append_assoc, List.append_assoc, List.take_append_drop]⟩
  -- what `a` holds behind the literal is `z`
  obtain ⟨z, rfl⟩ := prefix_of_sizeOf_le hwhole ⟨n, ht.symm⟩ (hstop ▸ hle)
  have hz : o = o.take (k + 1) ++ z ++ n := by
    rw [ht] at hm
    simp only [List.append_assoc] at hm
    rw [List.append_assoc, List.append_cancel_left (List.append_cancel_left hm)]
  have hbrace : '\x7b' ∈ chars (w ++ o.take (k + 1)) := by
    cases o with
    | nil => cases hk
    | cons m o =>
      rw [chars_append, List.take_succ_cons]
      simp [chars, head?_openingMarks (u := w ++ m :: o) (by rw [ho]; rfl)]
  have hbrace' : '\x7b' ∈ chars (w ++ o.take (k + 1) ++ z) := by
    rw [chars_append]
    exact List.mem_append_left _ hbrace
  have hwo : w ++ o.take (k + 1) ++ z ++ n = w ++ o := by
    conv_rhs => rw [hz]
    simp only [List.append_assoc]
  have hhead : firstHead none (q ++ (w ++ o.take (k + 1)) ++ z) = w ++ o.take (k + 1) ++ z := by
    refine firstHead_of_append (r := n) ?_ hbrace'
    rw [← ht, hu, hwo]
  have hopen : openingMarks (w ++ o.take (k + 1) ++ z) = o.take (k + 1) ++ z := by
    refine (List.append_left_inj n).1 ?_
    rw [← openingMarks_append hbrace', hwo, ho, ← hz]
  rw [Declares, hhead, hopen]
  refine ⟨fun he => ?_, Option.isSome_iff_exists.2 ⟨k, closeAfter?_of_append (r := n) (hz ▸ hk) ?_⟩⟩
  · rw [he] at hbrace'
    cases hbrace'
  · have hlt := (closeAfter?_append hk []).1
    rw [List.length_append, List.length_take]
    omega

/-- **A beginning of a text declares** if and only if it holds the first literal. -/
theorem declares_iff : Declares a ↔ l.span.stop ≤ sizeOf a :=
  ⟨fun ha => ha.stop_le h hc ht, declares_of_stop_le h hc ht⟩

end Beginning

/-- A literal whose head stands in a balanced text ends there, however the text goes on. -/
theorem closeAfter?_append_of_isBalanced {p : Text} (hb : isBalanced p = true)
    (hne : firstHead none (marks p) ≠ []) (n : List Mark) :
    closeAfter? (openingMarks (firstHead none (marks p)) ++ n)
      = closeAfter? (openingMarks (firstHead none (marks p))) := by
  cases hp : openingMarks (firstHead none (marks p)) with
  | nil => exact absurd hp (openingMarks_ne_nil (brace_mem_of_firstHead hne))
  | cons m r =>
    by_cases hm : isOpener m.char && m.isCode
    · have hsuf : m :: r <:+ marksFrom .start p :=
        hp ▸ (List.dropWhile_suffix _).trans (firstHead_suffix none (marks p))
      obtain ⟨s, z, hs, hrun⟩ := exists_scan_of_suffix hsuf
      have hsettled : (s.run z).stack = [] := by
        rw [hrun]
        have := hb
        simp only [isBalanced, State.isSettled, Bool.and_eq_true, List.isEmpty_iff] at this
        exact this.1
      rw [Bool.and_eq_true] at hm
      obtain ⟨k, hk⟩ := Option.isSome_iff_exists.1 (closeAfter?_isSome hs hm.1 hm.2 hsettled)
      exact (closeAfter?_append hk n).2.trans hk.symm
    · rw [List.cons_append, closeAfter?, closeAfter?, if_neg hm, if_neg hm]

/-- **What stands behind a text that declares something** is of no account. -/
theorem ClosedBy.declaration?_append {a : Text} (ha : ClosedBy '\n' a) (hd : declaration? a ≠ none)
    (r : Text) : declaration? (a ++ r) = declaration? a := by
  have hne : firstHead none (marks a) ≠ [] :=
    declaration?_isSome_iff.1 (Option.isSome_iff_ne_none.2 hd)
  rw [declaration?_eq, declaration?_eq, Closed.marks_append (.inl ha), firstHead_append hne]
  exact declarationAt_append (brace_mem_of_firstHead hne)
    (closeAfter?_append_of_isBalanced (Closed.isBalanced (.inl ha)) hne _)

/-- A balanced beginning of a text holds the first literal once it holds its head. -/
theorem declares_of_isBalanced {t p : Text} {l : ObjectLiteral} (h : firstLiteral? t = some l)
    (hc : l.closing = .balanced) {n : List Mark} (ht : marks t = marks p ++ n)
    (hb : isBalanced p = true) (hne : firstHead none (marks p) ≠ []) : Declares (marks p) := by
  obtain ⟨q, w, o, k, -, hu, ho, hk, -, -⟩ := exists_first_literal h hc
  rw [ht, firstHead_append hne] at hu
  rw [← ho, ← hu, openingMarks_append (brace_mem_of_firstHead hne),
    closeAfter?_append_of_isBalanced hb hne] at hk
  exact ⟨hne, by rw [hk]; rfl⟩

/-! ### Squeezing -/

/-- Squeezing takes off loose blanks only. -/
theorem mem_squeeze {x : Mark} (hx : isLoose x = false) (b : Bool) (ms : List Mark) :
    x ∈ squeeze b ms ↔ x ∈ ms := by
  induction ms generalizing b with
  | nil => rfl
  | cons m ms ih =>
    rw [squeeze]
    split
    · rename_i hm
      have hne : x ≠ m := by
        rintro rfl
        simp [hx] at hm
      rw [ih, List.mem_cons, or_iff_right hne]
    · rw [List.mem_cons, List.mem_cons, ih]

theorem isSome_closeAfter?_squeeze {o : List Mark} (ho : ∀ m ∈ o.head?, m.char = '\x7b') :
    (closeAfter? (squeeze false o)).isSome = (closeAfter? o).isSome := by
  cases o with
  | nil => rfl
  | cons m r =>
    have hs : squeeze false (m :: r) = m :: squeeze (loosens m) r := by rw [squeeze, if_neg (by simp)]
    rw [hs, closeAfter?, closeAfter?]
    split
    · rw [Option.isSome_map, Option.isSome_map, closeIndex?_eq, closeIndex?_eq,
        List.findIdx?_isSome, List.findIdx?_isSome, Bool.eq_iff_iff, List.any_eq_true,
        List.any_eq_true]
      refine exists_congr fun x => ⟨fun h => ⟨?_, h.2⟩, fun h => ⟨?_, h.2⟩⟩
      · exact (mem_squeeze (isLoose_of_closes h.2) _ r).1 h.1
      · exact (mem_squeeze (isLoose_of_closes h.2) _ r).2 h.1
    · rfl

/-- **Declaring** does not depend on the blanks that do not count. -/
theorem Declares.squeeze {t : Text} (h : Declares (marks t)) : Declares (squeezed t) := by
  have hh : firstHead none (squeezed t) = Script.squeeze false (firstHead none (marks t)) :=
    firstHead_squeeze _ rfl fun _ => rfl
  have hb : openingMarks (Script.squeeze false (firstHead none (marks t)))
      = Script.squeeze false (openingMarks (firstHead none (marks t))) := openingMarks_squeeze _ _
  refine ⟨?_, ?_⟩
  · rw [hh]
    cases hf : firstHead none (marks t) with
    | nil => exact absurd hf h.1
    | cons m ms =>
      rw [Script.squeeze, if_neg (by simp)]
      exact List.cons_ne_nil _ _
  · rw [hh, hb, isSome_closeAfter?_squeeze fun m hm => head?_openingMarks hm]
    exact h.2

/-- Blanks of ASCII do not count between statements. -/
theorem squeezed_asciiBlanks {b : Text} (h : ∀ c ∈ b, isAsciiBlank c = true) : squeezed b = [] := by
  have hb : ∀ c ∈ b, isPlain c = true := fun c hc =>
    isPlain_of_isBlank (isBlank_of_isAsciiBlank (h c hc))
  have hm := (Scans.plain hb []).marks_eq
  have hs : ∀ {b : Text}, (∀ c ∈ b, isAsciiBlank c = true) → squeeze true (codeMarks 0 b) = [] := by
    intro b hb
    induction b with
    | nil => rfl
    | cons c b ih =>
      have hc : isLoose ⟨c, .code, 0⟩ = true := hb c List.mem_cons_self
      have hrest := ih fun d hd => hb d (List.mem_cons_of_mem c hd)
      exact (if_pos (by rw [hc]; rfl)).trans hrest
  rw [squeezed, hm]
  exact hs h

end ElementModules.Script
