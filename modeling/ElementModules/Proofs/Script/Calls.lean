import ElementModules.Proofs.Prefixes
import ElementModules.Proofs.Script.Names
import ElementModules.Proofs.Script.Places

/-!
# Calls of `register`

A **call** of `register` on a receiver is found by its text `receiver.register(`: it counts where
the text occurs in code outside all brackets and a word may start. The text never overlaps itself,
so every such place is an occurrence (`callOffsets_eq`); and it holds neither a semicolon nor a line
feed, so the calls of a text are those of its statements (`Closed.callOffsets_append`).

## Main results

* `callOffsets_eq`: the calls, found by looking at every mark.
* `Closed.callOffsets_append`, `callOffsets_append_newline`: the calls of joined texts.
-/

namespace ElementModules.Script

open Text

/-- The text with which a call of `register` starts. -/
def callHead (receiver : Text) : Text := receiver ++ ".register("

/-- The offsets of the calls of `register` in code outside all brackets. -/
def callOffsets (receiver t : Text) : List Nat :=
  (topLevelOccurrences (callHead receiver) (marks t)).filter (Token.startsWordAt t)

/-- Whether a call starts with the first of some marks; `before` is the character in front. -/
def startsCall (receiver : Text) (before : Option Char) : List Mark → Bool
  | [] => false
  | m :: ms =>
    (callHead receiver).isPrefixOf (chars (m :: ms)) && m.isTopLevel && Token.startsWord before

/-- The offsets of the marks with which a call starts. -/
def callsFrom (receiver : Text) : Option Char → Nat → List Mark → List Nat
  | _, _, [] => []
  | before, offset, m :: ms =>
    let rest := callsFrom receiver (some m.char) (offset + m.size) ms
    if startsCall receiver before (m :: ms) then offset :: rest else rest

/-! ### Occurrences -/

theorem charAt?_append (a : Text) (c : Char) (b : Text) :
    charAt? (a ++ c :: b) (size a + (c.utf8Size - 1)) = some c := by
  induction a with
  | nil =>
    have hc := c.utf8Size_pos
    rw [List.nil_append, size_nil, Nat.zero_add, charAt?, if_pos (by omega)]
  | cons d a ih =>
    rw [List.cons_append, charAt?, size_cons, if_neg (by omega), ← ih]
    congr 1
    omega

theorem startsWordAt_size (a b : Text) :
    Token.startsWordAt (a ++ b) (size a) = Token.startsWord a.getLast? := by
  rcases List.eq_nil_or_concat a with rfl | ⟨q, c, rfl⟩
  · rfl
  · have hc := c.utf8Size_pos
    have hs : size (q ++ [c]) = size q + (c.utf8Size - 1) + 1 := by simp; omega
    rw [List.concat_eq_append, hs, Token.startsWordAt, List.append_assoc, List.singleton_append,
      charAt?_append, List.getLast?_concat]
    rfl

theorem callHead_eq (receiver : Text) :
    callHead receiver = receiver ++ (".register" : Text) ++ ['('] := by
  rw [callHead, List.append_assoc]
  rfl

theorem brace_not_mem_callHead {receiver : Text} (hr : isName receiver = true) :
    '(' ∉ receiver ++ (".register" : Text) := by
  rw [List.mem_append, not_or]
  exact ⟨fun h => absurd (isNameChar_of_mem hr h) (by decide), by decide⟩

/-- The head of a call does not overlap itself: it holds one bracket, its last character. -/
theorem not_isPrefixOf_drop {receiver : Text} (hr : isName receiver = true) {u : Text}
    (h : callHead receiver <+: u) {i : Nat} (hi : 0 < i) (hlt : i < (callHead receiver).length) :
    ¬ callHead receiver <+: u.drop i := by
  rintro ⟨b, hb⟩
  obtain ⟨a, ha⟩ := h
  have hlen : (callHead receiver).length = (receiver ++ (".register" : Text)).length + 1 := by
    rw [callHead_eq, List.length_append, List.length_singleton]
  have hparen : u[(receiver ++ (".register" : Text)).length]? = some '(' := by
    rw [← ha, callHead_eq, List.append_assoc, List.getElem?_append_right (Nat.le_refl _),
      Nat.sub_self]
    rfl
  have hget : (u.drop i)[(receiver ++ (".register" : Text)).length - i]? = some '(' := by
    rw [List.getElem?_drop, ← hparen]
    congr 1
    omega
  rw [← hb, callHead_eq, List.append_assoc, List.getElem?_append_left (by omega)] at hget
  exact brace_not_mem_callHead hr (List.mem_of_getElem? hget)

/-- The calls among the occurrences of their head; the first `skip` marks belong to an occurrence. -/
theorem filter_occurrencesFrom {receiver : Text} (hr : isName receiver = true) (ms : List Mark)
    (q : Text) (skip : Nat)
    (hs : ∀ i < skip, ¬ callHead receiver <+: (chars ms).drop i) :
    (((occurrencesFrom (callHead receiver) (size q) skip ms).filter fun o => o.2.isTopLevel).map
        Prod.fst).filter (Token.startsWordAt (q ++ chars ms))
      = callsFrom receiver q.getLast? (size q) ms := by
  induction ms generalizing q skip with
  | nil =>
    cases skip <;> rfl
  | cons m ms ih =>
    have hq : q ++ chars (m :: ms) = (q ++ [m.char]) ++ chars ms := by simp [chars]
    have hsize : size q + m.size = size (q ++ [m.char]) := by simp [Mark.size]
    have hlast : (q ++ [m.char]).getLast? = some m.char := List.getLast?_concat
    have hword := startsWordAt_size q (chars (m :: ms))
    rw [callsFrom]
    cases skip with
    | succ skip =>
      have hn : startsCall receiver q.getLast? (m :: ms) = false := by
        have h0 := hs 0 (Nat.succ_pos skip)
        rw [startsCall, Bool.and_assoc, Bool.and_eq_false_iff]
        exact .inl (by simpa [← List.isPrefixOf_iff_prefix] using h0)
      rw [hn, if_neg (by simp), occurrencesFrom, hq, hsize, ih (q ++ [m.char]) skip ?_, hlast]
      intro i hi
      exact hs (i + 1) (by omega)
    | zero =>
      rw [occurrencesFrom]
      by_cases hp : (callHead receiver).isPrefixOf (chars (m :: ms)) = true
      · have hpre := List.isPrefixOf_iff_prefix.1 hp
        have hrest := ih (q ++ [m.char]) ((callHead receiver).length - 1) (fun i hi =>
          not_isPrefixOf_drop hr hpre (i := i + 1) (by omega) (by omega))
        rw [← hq, ← hsize, hlast] at hrest
        rw [if_pos hp, startsCall, hp, Bool.true_and, List.filter_cons, ← hrest]
        cases ht : m.isTopLevel
        · simp
        · simp only [if_true, List.map_cons, List.filter_cons, hword, Bool.true_and]
      · have hrest := ih (q ++ [m.char]) 0 (fun i hi => absurd hi (Nat.not_lt_zero i))
        rw [← hq, ← hsize, hlast] at hrest
        rw [if_neg hp, startsCall, eq_false_of_ne_true hp, hrest]
        rfl

/-- **Every place of a call** is an occurrence of its head. -/
theorem callOffsets_eq {receiver : Text} (hr : isName receiver = true) (t : Text) :
    callOffsets receiver t = callsFrom receiver none 0 (marks t) := by
  have h := filter_occurrencesFrom hr (marks t) [] 0 (fun i hi => absurd hi (Nat.not_lt_zero i))
  rwa [List.nil_append, chars_marks] at h

/-! ### Joined texts -/

/-- A character that is not part of the head of a call separates the calls. -/
theorem callsFrom_append {receiver : Text} {x : Mark} (hx : x.char ∉ callHead receiver)
    (before : Option Char) (offset : Nat) (ms ns : List Mark) :
    callsFrom receiver before offset (ms ++ x :: ns)
      = callsFrom receiver before offset ms
        ++ callsFrom receiver (some x.char) (offset + sizeOf ms + x.size) ns := by
  induction ms generalizing before offset with
  | nil =>
    have hn : startsCall receiver before (x :: ns) = false := by
      have hp := isPrefixOf_append_of_not_mem hx [] (chars ns)
      have he : (callHead receiver).isPrefixOf [] = false := by simp [callHead]
      rw [startsCall, Bool.and_assoc, Bool.and_eq_false_iff]
      exact .inl (hp.trans he)
    have hsize : sizeOf [] = 0 := rfl
    simp only [List.nil_append, callsFrom, hn, hsize, Nat.add_zero, Bool.false_eq_true, if_false]
  | cons m ms ih =>
    have hc : startsCall receiver before (m :: ms ++ x :: ns)
        = startsCall receiver before (m :: ms) := by
      have hp := isPrefixOf_append_of_not_mem hx (chars (m :: ms)) (chars ns)
      have hch : chars (m :: (ms ++ x :: ns)) = chars (m :: ms) ++ x.char :: chars ns := by
        simp [chars]
      rw [List.cons_append, startsCall, startsCall, hch, hp]
    have ho : offset + m.size + sizeOf ms + x.size = offset + sizeOf (m :: ms) + x.size := by
      rw [sizeOf_cons]
      omega
    rw [List.cons_append, callsFrom, ← List.cons_append, hc, ih, callsFrom, ho]
    split <;> rfl

theorem callsFrom_congr {before before' : Option Char}
    (h : Token.startsWord before = Token.startsWord before') (receiver : Text) (offset : Nat)
    (ms : List Mark) :
    callsFrom receiver before offset ms = callsFrom receiver before' offset ms := by
  cases ms with
  | nil => rfl
  | cons m ms => rw [callsFrom, callsFrom, startsCall, startsCall, h]

theorem callsFrom_add (receiver : Text) (before : Option Char) (k offset : Nat) (ms : List Mark) :
    callsFrom receiver before (offset + k) ms
      = (callsFrom receiver before offset ms).map (· + k) := by
  induction ms generalizing before offset with
  | nil => rfl
  | cons m ms ih =>
    rw [callsFrom, callsFrom, Nat.add_right_comm, ih]
    split <;> rfl

section Joining

variable {receiver : Text} (hr : isName receiver = true)
include hr

theorem not_mem_callHead {c : Char} (hc : Token.isNameChar c = false) (hd : c ≠ '.')
    (hp : c ≠ '(') : c ∉ callHead receiver := by
  rw [callHead, List.mem_append, not_or]
  refine ⟨fun h => ?_, fun h => ?_⟩
  · rw [isNameChar_of_mem hr h] at hc
    cases hc
  · have : ∀ d ∈ (".register(" : Text), Token.isNameChar d = true ∨ d = '.' ∨ d = '(' :=
      List.all_iff_forall_prop.1 (by decide)
    rcases this c h with h | h | h
    · rw [h] at hc
      cases hc
    · exact hd h
    · exact hp h

/-- **The calls of joined texts** are those of the parts. -/
theorem Closed.callOffsets_append {a : Text} (h : Closed a) (b : Text) :
    callOffsets receiver (a ++ b)
      = callOffsets receiver a ++ (callOffsets receiver b).map (· + size a) := by
  obtain ⟨q, m, hq, hm, hw⟩ : ∃ q m, marks a = q ++ [m] ∧ m.char ∉ callHead receiver
      ∧ Token.startsWord (some m.char) = Token.startsWord none := by
    rcases h with ⟨q, rfl, hq⟩ | ⟨q, rfl, hq⟩
    · exact ⟨marks q, _, marks_concat hq (by decide),
        not_mem_callHead hr (by decide) (by decide) (by decide), by decide⟩
    · exact ⟨marks q, _, marks_concat hq (by decide),
        not_mem_callHead hr (by decide) (by decide) (by decide), by decide⟩
  have hsize : 0 + sizeOf q + m.size = 0 + size a := by
    rw [← chars_marks a, hq, chars_append, size_append, Nat.add_assoc]
    rfl
  rw [callOffsets_eq hr, callOffsets_eq hr, callOffsets_eq hr, h.marks_append, hq,
    List.append_assoc, List.singleton_append, callsFrom_append hm, callsFrom_append hm,
    callsFrom_congr hw, hsize, callsFrom_add]
  simp [callsFrom]

/-- A line feed at the end of a text makes no call. -/
theorem callOffsets_append_newline (t : Text) :
    callOffsets receiver (t ++ ['\n']) = callOffsets receiver t := by
  obtain ⟨x, hx, hm⟩ := marks_append_newline_eq t
  have hn : x.char ∉ callHead receiver := by
    rw [hx]
    exact not_mem_callHead hr (by decide) (by decide) (by decide)
  rw [callOffsets_eq hr, callOffsets_eq hr, hm, callsFrom_append hn]
  simp [callsFrom]

end Joining

/-! ### Words -/

theorem callsFrom_of_not {receiver : Text} {before : Option Char} {m : Mark} {ms : List Mark}
    (h : startsCall receiver before (m :: ms) = false) (offset : Nat) :
    callsFrom receiver before offset (m :: ms)
      = callsFrom receiver (some m.char) (offset + m.size) ms := by
  rw [callsFrom, h]
  rfl

/-- Inside a word no call starts. -/
theorem callsFrom_inside (receiver : Text) {w : Text} (hw : ∀ c ∈ w, Token.isNameChar c = true)
    {before : Option Char} (hb : Token.startsWord before = false) (d offset : Nat) (x : Mark)
    (ms : List Mark) :
    callsFrom receiver before offset (codeMarks d w ++ x :: ms)
      = callsFrom receiver (some x.char) (offset + size w + x.size) ms := by
  have hn : ∀ {before : Option Char}, Token.startsWord before = false → ∀ u : List Mark,
      startsCall receiver before u = false := by
    intro before hb u
    cases u with
    | nil => rfl
    | cons m u => rw [startsCall, hb, Bool.and_false]
  induction w generalizing before offset with
  | nil => exact callsFrom_of_not (hn hb _) offset
  | cons c w ih =>
    have hc : Token.startsWord (some c) = false := by
      simp [Token.startsWord, hw c List.mem_cons_self]
    have ho : offset + c.utf8Size + size w = offset + size (c :: w) := by
      rw [size_cons, Nat.add_assoc]
    refine (callsFrom_of_not (hn hb _) offset).trans ?_
    rw [← ho]
    exact ih (fun d hd => hw d (List.mem_cons_of_mem c hd)) hc _

/-- At a word other than the receiver, or one that no dot follows, no call starts. -/
theorem callsFrom_word {receiver w : Text} (hr : isName receiver = true) (hw : isName w = true)
    {x : Mark} (hx : Token.isNameChar x.char = false) (hne : w = receiver → x.char ≠ '.')
    (before : Option Char) (d offset : Nat) (ms : List Mark) :
    callsFrom receiver before offset (codeMarks d w ++ x :: ms)
      = callsFrom receiver (some x.char) (offset + size w + x.size) ms := by
  obtain ⟨c, v, rfl⟩ := List.exists_cons_of_ne_nil (ne_nil_of_isName hw)
  have hmem : ∀ y ∈ c :: v, Token.isNameChar y = true := fun y hy => isNameChar_of_mem hw hy
  have hchars : chars (codeMarks d (c :: v) ++ x :: ms) = c :: v ++ x.char :: chars ms := by
    rw [chars_append, chars_codeMarks]
    rfl
  have hn : startsCall receiver before (codeMarks d (c :: v) ++ x :: ms) = false := by
    have hp : (callHead receiver).isPrefixOf (c :: v ++ x.char :: chars ms) = false := by
      rw [← Bool.not_eq_true, List.isPrefixOf_iff_prefix]
      rintro ⟨b, hb⟩
      have hr' : callHead receiver ++ b = receiver ++ '.' :: (("register(" : Text) ++ b) := by
        rw [callHead, List.append_assoc]
        rfl
      have h₁ := takeWhile_isNameChar (n := receiver) (r := '.' :: (("register(" : Text) ++ b))
        (fun y hy => isNameChar_of_mem hr hy) rfl
      have h₂ := takeWhile_isNameChar (n := c :: v) (r := x.char :: chars ms) hmem (by simpa using hx)
      rw [← hb, hr'] at h₂
      refine hne (h₂.1.symm.trans h₁.1) ?_
      have := h₁.2.symm.trans h₂.2
      exact (List.cons.inj this).1.symm
    show ((callHead receiver).isPrefixOf (chars (codeMarks d (c :: v) ++ x :: ms)) && _ && _) = false
    rw [hchars, hp]
    rfl
  have hc : Token.startsWord (some c) = false := by
    simp [Token.startsWord, hmem c List.mem_cons_self]
  have ho : offset + c.utf8Size + size v = offset + size (c :: v) := by
    rw [size_cons, Nat.add_assoc]
  refine (callsFrom_of_not hn offset).trans ?_
  rw [← ho]
  exact callsFrom_inside receiver (fun y hy => hmem y (List.mem_cons_of_mem c hy)) hc d _ x ms

/-- Whether no call can start at a mark, whatever stands in front of it. -/
def isCallFree (m : Mark) : Bool := !m.isTopLevel || !Token.isNameChar m.char

/-- Brackets hide a call. -/
theorem isCallFree_inside (d : Nat) (w : Text) :
    ∀ m ∈ codeMarks (d + 1) w, isCallFree m = true := by
  rintro m hm
  obtain ⟨c, -, rfl⟩ := List.mem_map.1 hm
  rfl

theorem isCallFree_literalMarks (d : Nat) (w : Text) :
    ∀ m ∈ literalMarks d w, isCallFree m = true := by
  rintro m hm
  obtain ⟨c, -, rfl⟩ := List.mem_map.1 hm
  rfl

/-- No call starts at a character that no name holds. -/
theorem isCallFree_char {c : Char} (hc : Token.isNameChar c = false) (d : Nat) :
    ∀ m ∈ codeMarks d [c], isCallFree m = true := by
  rintro m hm
  obtain rfl := List.mem_singleton.1 hm
  simp [isCallFree, hc]

/-- Marks at which no call starts are passed over. -/
theorem callsFrom_free {receiver : Text} (hr : isName receiver = true) {ms : List Mark}
    (h : ∀ m ∈ ms, isCallFree m = true) (before : Option Char) (offset : Nat) (ns : List Mark) :
    ∃ before' offset', callsFrom receiver before offset (ms ++ ns)
      = callsFrom receiver before' offset' ns := by
  induction ms generalizing before offset with
  | nil => exact ⟨before, offset, rfl⟩
  | cons m ms ih =>
    have hn : startsCall receiver before (m :: (ms ++ ns)) = false := by
      have hm := h m List.mem_cons_self
      simp only [isCallFree, Bool.or_eq_true, Bool.not_eq_true'] at hm
      rcases hm with hm | hm
      · simp [startsCall, hm]
      · obtain ⟨c, v, hv⟩ := List.exists_cons_of_ne_nil (ne_nil_of_isName hr)
        have hp : (callHead receiver).isPrefixOf (chars (m :: (ms ++ ns))) = false := by
          rw [← Bool.not_eq_true, List.isPrefixOf_iff_prefix]
          rintro ⟨b, hb⟩
          rw [callHead, hv] at hb
          have hc : c = m.char := (List.cons.inj hb).1
          rw [← hc, isNameChar_of_mem hr (by rw [hv]; exact List.mem_cons_self)] at hm
          cases hm
        rw [startsCall, hp]
        rfl
    rw [List.cons_append, callsFrom_of_not hn]
    exact ih (fun x hx => h x (List.mem_cons_of_mem m hx)) _ _

theorem callsFrom_eq_nil {receiver : Text} (hr : isName receiver = true) {ms : List Mark}
    (h : ∀ m ∈ ms, isCallFree m = true) (before : Option Char) (offset : Nat) :
    callsFrom receiver before offset ms = [] := by
  obtain ⟨b, o, hc⟩ := callsFrom_free hr h before offset []
  rwa [List.append_nil] at hc

end ElementModules.Script
