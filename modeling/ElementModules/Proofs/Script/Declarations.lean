import ElementModules.Proofs.Script.Heads
import ElementModules.Proofs.Script.Nesting

/-!
# What a script declares

A script declares the name and the body of its first object literal. The literal starts at the
**first head**: the first place outside all brackets where a word may start and a head can be read.
Everything about the declaration is read off the marks from there on (`declaration?_eq`).

A head ends at its brace and a closed literal at its closing brace, so what follows them does not
matter: the first head of a text is the first head of every longer text (`firstHead_append`), and so
is the declaration once the literal is closed (`declarationAt_append`).

## Main results

* `firstLiteral?_eq`, `declaration?_eq`: the first literal and what it declares, from the first head.
* `firstHead_append`, `firstHead_of_append`: the first head of a longer text.
* `declarationAt_append`: the declaration in a longer text.
* `firstHead_quiet_append`: marks that start no binding may be left out in front.
-/

namespace ElementModules.Script

open Text

/-- What the first object literal of a script declares. -/
structure Declaration where
  keyword : Declarator
  identifier : Text
  exported : Bool
  /-- The body of the literal, if it ends at its closing brace. -/
  body : Option Text
  deriving DecidableEq, Repr

/-- What a literal declares. -/
def ObjectLiteral.declaration (l : ObjectLiteral) : Declaration :=
  ⟨l.keyword, l.identifier, l.exported, if l.closing = .balanced then some l.body else none⟩

/-- What a script declares. -/
def declaration? (t : Text) : Option Declaration :=
  (firstLiteral? t).map ObjectLiteral.declaration

/-- A literal that is declared with its body. -/
theorem exists_of_declaration? {t b : Text} {d : Declaration} (h : declaration? t = some d)
    (hb : d.body = some b) :
    ∃ l, firstLiteral? t = some l ∧ l.closing = .balanced ∧ l.identifier = d.identifier
      ∧ l.body = b := by
  obtain ⟨l, hl, rfl⟩ := Option.map_eq_some_iff.1 h
  rw [ObjectLiteral.declaration] at hb
  split at hb
  · exact ⟨l, hl, ‹_›, rfl, Option.some.inj hb⟩
  · cases hb

/-! ### The first head -/

/-- Whether a binding starts with the first of some marks; `before` is the character in front. -/
def startsBinding (before : Option Char) : List Mark → Bool
  | [] => false
  | m :: ms => mayStartBinding before m && (BindingStart.parse? (chars (m :: ms))).isSome

/-- The marks from the first head on. -/
def firstHead : Option Char → List Mark → List Mark
  | _, [] => []
  | before, m :: ms =>
    if startsBinding before (m :: ms) then m :: ms else firstHead (some m.char) ms

/-- The marks from the first opening brace on. -/
def openingMarks (u : List Mark) : List Mark := u.dropWhile fun m => m.char ≠ '\x7b'

/-- The body of the literal that starts with the first of some marks, if its closing brace is
found. -/
def bodyAt? (opening : List Mark) : Option Text :=
  (closeAfter? opening).bind fun k =>
    if (chars opening)[k]? = some '\x7d' then some (((chars opening).take k).drop 1) else none

/-- What is declared by the binding that some marks start with. -/
def declarationAt (u : List Mark) : Option Declaration :=
  (BindingStart.parse? (chars u)).map fun h =>
    ⟨h.keyword, h.identifier, h.exported, bodyAt? (openingMarks u)⟩

theorem chars_openingMarks (u : List Mark) :
    chars (openingMarks u) = BindingStart.fromBrace (chars u) := by
  rw [chars, openingMarks, BindingStart.fromBrace, chars, List.dropWhile_map]
  rfl

theorem drop_openingMarks (u : List Mark) :
    u.drop (u.length - (openingMarks u).length) = openingMarks u :=
  (List.suffix_iff_eq_drop.1 (List.dropWhile_suffix _)).symm

theorem bodyAt?_eq (opening : List Mark) :
    bodyAt? opening
      = if (literalAt opening).2.2 = .balanced then some (literalAt opening).2.1 else none := by
  rw [bodyAt?, literalAt]
  cases closeAfter? opening with
  | none => simp
  | some k =>
    rw [Option.bind_some]
    split <;> rename_i h <;> simp [h]

theorem boundLiteral?_isSome (whole : Text) (offset : Nat) (u : List Mark) :
    (boundLiteral? whole offset u).isSome = (BindingStart.parse? (chars u)).isSome := by
  rw [boundLiteral?]
  cases BindingStart.parse? (chars u) <;> rfl

/-- A bound literal and what it declares. -/
theorem boundLiteral?_eq_some {whole : Text} {offset : Nat} {u : List Mark} {l : ObjectLiteral}
    {n : Nat} (h : boundLiteral? whole offset u = some (l, n)) :
    declarationAt u = some l.declaration ∧ l.statement.start = offset
      ∧ l.span.stop = offset + size ((chars u).take ((chars u).length - (openingMarks u).length))
          + size (literalAt (openingMarks u)).1 := by
  rw [boundLiteral?] at h
  rw [declarationAt]
  cases hp : BindingStart.parse? (chars u) with
  | none => rw [hp] at h; cases h
  | some b =>
    have hl : b.opening.length = (openingMarks u).length := by
      rw [(BindingStart.parse?_eq_some hp).1, ← chars_openingMarks, chars, List.length_map]
    have hu : (chars u).length = u.length := by rw [chars, List.length_map]
    rw [hp] at h
    simp only [Option.bind_eq_bind, Option.bind_some, Option.pure_def, Option.some.injEq,
      Prod.mk.injEq, hl, hu, drop_openingMarks] at h
    obtain ⟨rfl, -⟩ := h
    refine ⟨?_, rfl, ?_⟩
    · rw [Option.map_some, bodyAt?_eq]
      rfl
    · simp only [hu]

/-- The first literal is the one bound at the first head. -/
theorem head?_literalsFrom (whole : Text) (before : Option Char) (offset : Nat) (ms : List Mark) :
    ∃ q, ms = q ++ firstHead before ms ∧ (literalsFrom whole before offset 0 ms).head?
      = (boundLiteral? whole (offset + sizeOf q) (firstHead before ms)).map Prod.fst := by
  induction ms generalizing before offset with
  | nil => exact ⟨[], rfl, rfl⟩
  | cons m ms ih =>
    have hs := boundLiteral?_isSome whole offset (m :: ms)
    rw [literalsFrom, firstHead]
    by_cases hb : startsBinding before (m :: ms) = true
    · rw [if_pos hb]
      simp only [startsBinding, Bool.and_eq_true] at hb
      obtain ⟨r, hr⟩ := Option.isSome_iff_exists.1 (hs.trans hb.2)
      refine ⟨[], rfl, ?_⟩
      rw [if_pos hb.1, hr, sizeOf, chars, List.map_nil, size_nil, Nat.add_zero, hr]
      rfl
    · rw [if_neg hb]
      have hn : (if mayStartBinding before m then boundLiteral? whole offset (m :: ms) else none)
          = none := by
        split
        · rename_i hm
          simp only [startsBinding, hm, Bool.true_and, Bool.not_eq_true] at hb
          exact Option.isSome_eq_false_iff.1 (hs.trans hb) |> Option.isNone_iff_eq_none.1
        · rfl
      obtain ⟨q, hq, hl⟩ := ih (some m.char) (offset + m.size)
      refine ⟨m :: q, by rw [List.cons_append, ← hq], ?_⟩
      have ho : offset + sizeOf (m :: q) = offset + m.size + sizeOf q := by
        simp [sizeOf, chars, Mark.size, Nat.add_assoc]
      rw [hn, hl, ho]

theorem firstLiteral?_eq (t : Text) :
    ∃ q, marks t = q ++ firstHead none (marks t) ∧ firstLiteral? t
      = (boundLiteral? t (sizeOf q) (firstHead none (marks t))).map Prod.fst := by
  obtain ⟨q, hq, hl⟩ := head?_literalsFrom t none 0 (marks t)
  exact ⟨q, hq, by rw [firstLiteral?, literals, hl, Nat.zero_add]⟩

/-- **The declaration is read off the first head.** -/
theorem declaration?_eq (t : Text) : declaration? t = declarationAt (firstHead none (marks t)) := by
  obtain ⟨q, -, hl⟩ := firstLiteral?_eq t
  rw [declaration?, hl]
  cases hb : boundLiteral? t (sizeOf q) (firstHead none (marks t)) with
  | none =>
    have := boundLiteral?_isSome t (sizeOf q) (firstHead none (marks t))
    rw [hb] at this
    rw [declarationAt, Option.isNone_iff_eq_none.1 (Option.isSome_eq_false_iff.1 this.symm)]
    rfl
  | some r => exact (boundLiteral?_eq_some (n := r.2) hb).1.symm

/-- The name of the first literal is a name. -/
theorem isName_identifier {t : Text} {l : ObjectLiteral} (h : firstLiteral? t = some l) :
    isName l.identifier = true := by
  have hd : declaration? t = some l.declaration := by rw [declaration?, h]; rfl
  rw [declaration?_eq, declarationAt] at hd
  obtain ⟨b, hb, he⟩ := Option.map_eq_some_iff.1 hd
  have hi : b.identifier = l.identifier := congrArg Declaration.identifier he
  rw [← hi]
  exact (BindingStart.parse?_eq_some hb).2.2

theorem startsBinding_firstHead {before : Option Char} {ms : List Mark}
    (h : firstHead before ms ≠ []) : ∃ b, startsBinding b (firstHead before ms) = true := by
  induction ms generalizing before with
  | nil => exact absurd rfl h
  | cons m ms ih =>
    rw [firstHead] at h ⊢
    split
    · exact ⟨before, ‹_›⟩
    · rename_i hb
      rw [if_neg hb] at h
      exact ih h

/-! ### Longer texts -/

theorem firstHead_suffix (before : Option Char) (ms : List Mark) : firstHead before ms <:+ ms := by
  induction ms generalizing before with
  | nil => exact List.suffix_rfl
  | cons m ms ih =>
    rw [firstHead]
    split
    · exact List.suffix_rfl
    · exact (ih _).trans (List.suffix_cons m ms)

theorem startsBinding_congr {before before' : Option Char} {m : Mark} {ms ms' : List Mark}
    (hb : Token.startsWord before = Token.startsWord before')
    (hv : headView false (chars (m :: ms)) = headView false (chars (m :: ms'))) :
    startsBinding before (m :: ms) = startsBinding before' (m :: ms') := by
  rw [startsBinding, startsBinding, mayStartBinding, mayStartBinding, hb,
    BindingStart.isSome_parse?_congr hv]

theorem startsBinding_append {before : Option Char} {m : Mark} {ms : List Mark}
    (h : '\x7b' ∈ chars (m :: ms)) (r : List Mark) :
    startsBinding before (m :: ms ++ r) = startsBinding before (m :: ms) := by
  refine startsBinding_congr rfl ?_
  show headView false (chars (m :: ms ++ r)) = headView false (chars (m :: ms))
  rw [chars_append]
  exact headView_append ⟨_, h, rfl⟩ _ _

theorem brace_mem_of_startsBinding {before : Option Char} {u : List Mark}
    (h : startsBinding before u = true) : '\x7b' ∈ chars u := by
  cases u with
  | nil => cases h
  | cons m ms =>
    simp only [startsBinding, Bool.and_eq_true] at h
    exact (BindingStart.exists_endsHead h.2).1

theorem brace_mem_of_firstHead {before : Option Char} {ms : List Mark}
    (h : firstHead before ms ≠ []) : '\x7b' ∈ chars (firstHead before ms) := by
  obtain ⟨b, hb⟩ := startsBinding_firstHead h
  exact brace_mem_of_startsBinding hb

theorem mem_chars_of_suffix {u ms : List Mark} {c : Char} (h : u <:+ ms) (hc : c ∈ chars u) :
    c ∈ chars ms := by
  obtain ⟨q, rfl⟩ := h
  rw [chars_append]
  exact List.mem_append_right _ hc

/-- **The first head of a text** is the first head of every longer text. -/
theorem firstHead_append {before : Option Char} {ms : List Mark} (h : firstHead before ms ≠ [])
    (r : List Mark) : firstHead before (ms ++ r) = firstHead before ms ++ r := by
  induction ms generalizing before with
  | nil => exact absurd rfl h
  | cons m ms ih =>
    have hb := mem_chars_of_suffix (firstHead_suffix _ _) (brace_mem_of_firstHead h)
    have hs : startsBinding before (m :: ms ++ r) = startsBinding before (m :: ms) :=
      startsBinding_append hb r
    rw [firstHead] at h
    rw [List.cons_append, firstHead, firstHead, ← List.cons_append, hs]
    split
    · rfl
    · rename_i hn
      rw [if_neg hn] at h
      exact ih h

/-- A first head whose brace lies in the first part of a text is the first head of that part. -/
theorem firstHead_of_append {before : Option Char} {ms w r : List Mark}
    (h : firstHead before (ms ++ r) = w ++ r) (hw : '\x7b' ∈ chars w) :
    firstHead before ms = w := by
  induction ms generalizing before with
  | nil =>
    have hl := (firstHead_suffix before r).length_le
    rw [List.nil_append] at h
    rw [h, List.length_append] at hl
    obtain rfl : w = [] := List.length_eq_zero_iff.1 (by omega)
    cases hw
  | cons m ms ih =>
    rw [List.cons_append, firstHead, ← List.cons_append] at h
    split at h
    · rename_i hs
      obtain rfl := List.append_cancel_right h
      rw [startsBinding_append hw] at hs
      rw [firstHead, if_pos hs]
    · rename_i hs
      have hi := ih h
      have hb : '\x7b' ∈ chars (m :: ms) :=
        mem_chars_of_suffix ((firstHead_suffix _ _).trans (List.suffix_cons m ms)) (hi ▸ hw)
      rw [startsBinding_append hb] at hs
      rw [firstHead, if_neg hs, hi]

theorem openingMarks_ne_nil {u : List Mark} (h : '\x7b' ∈ chars u) : openingMarks u ≠ [] := by
  obtain ⟨m, hm, hc⟩ := List.mem_map.1 h
  rw [openingMarks, Ne, List.dropWhile_eq_nil_iff]
  intro hn
  simpa [hc] using hn m hm

theorem head?_openingMarks {u : List Mark} {m : Mark} (h : (openingMarks u).head? = some m) :
    m.char = '\x7b' := by
  have := List.head?_dropWhile_not (fun m : Mark => decide (m.char ≠ '\x7b')) u
  rw [show u.dropWhile _ = openingMarks u from rfl, h] at this
  simpa using this

theorem openingMarks_append {u : List Mark} (h : '\x7b' ∈ chars u) (r : List Mark) :
    openingMarks (u ++ r) = openingMarks u ++ r := by
  rw [openingMarks, List.dropWhile_append, if_neg]
  · rfl
  · rw [List.isEmpty_iff]
    exact openingMarks_ne_nil h

theorem closeAfter?_append {o : List Mark} {k : Nat} (h : closeAfter? o = some k) (r : List Mark) :
    k < o.length ∧ closeAfter? (o ++ r) = some k := by
  cases o with
  | nil => cases h
  | cons m ms =>
    rw [List.cons_append]
    rw [closeAfter?] at h ⊢
    split at h
    · rename_i ho
      obtain ⟨i, hi, rfl⟩ := Option.map_eq_some_iff.1 h
      rw [closeIndex?_eq] at hi
      have hlt : i < ms.length := (List.findIdx?_eq_some_iff_getElem.1 hi).1
      refine ⟨by simp; omega, ?_⟩
      rw [if_pos ho, closeIndex?_eq, List.findIdx?_append, hi]
      rfl
    · cases h

/-- Marks behind the closing bracket do not change the body. -/
theorem bodyAt?_append {o r : List Mark} (h : closeAfter? (o ++ r) = closeAfter? o) :
    bodyAt? (o ++ r) = bodyAt? o := by
  rw [bodyAt?, bodyAt?, h]
  cases hk : closeAfter? o with
  | none => rfl
  | some k =>
    have hlen : k < (chars o).length := by
      rw [chars, List.length_map]
      exact (closeAfter?_append hk r).1
    rw [Option.bind_some, Option.bind_some, chars_append, List.getElem?_append_left hlen,
      List.take_append_of_le_length hlen.le]

/-- What is declared depends on the view of the head and on the body. -/
theorem declarationAt_congr {u v : List Mark}
    (hv : headView false (chars u) = headView false (chars v))
    (hb : bodyAt? (openingMarks u) = bodyAt? (openingMarks v)) :
    declarationAt u = declarationAt v := by
  have hd : ∀ w : List Mark, declarationAt w = ((BindingStart.parse? (chars w)).map
      BindingStart.facts).map fun f => ⟨f.2.1, f.2.2, f.1, bodyAt? (openingMarks w)⟩ := by
    intro w
    rw [declarationAt, Option.map_map]
    rfl
  rw [hd, hd, hb, BindingStart.facts_congr hv]

/-- **The declaration in a longer text** is the same if the literal is closed at the same place. -/
theorem declarationAt_append {u : List Mark} (hb : '\x7b' ∈ chars u) {r : List Mark}
    (hc : closeAfter? (openingMarks u ++ r) = closeAfter? (openingMarks u)) :
    declarationAt (u ++ r) = declarationAt u := by
  refine declarationAt_congr ?_ ?_
  · rw [chars_append]
    exact headView_append ⟨_, hb, rfl⟩ _ _
  · rw [openingMarks_append hb]
    exact bodyAt?_append hc

/-- A mark that closes nothing does not change where a literal ends. -/
theorem closeAfter?_concat {x : Mark} (hx : isCloser x.char = false) {o : List Mark} (ho : o ≠ []) :
    closeAfter? (o ++ [x]) = closeAfter? o := by
  cases o with
  | nil => exact absurd rfl ho
  | cons m ms =>
    rw [List.cons_append, closeAfter?, closeAfter?, closeIndex?_eq, closeIndex?_eq,
      List.findIdx?_append]
    simp [closes, hx]

/-- A line feed at the end does not change what is declared. -/
theorem declaration?_append_newline (t : Text) :
    declaration? (t ++ ['\n']) = declaration? t := by
  obtain ⟨x, hx, hm⟩ := marks_append_newline_eq t
  rw [declaration?_eq, declaration?_eq, hm]
  by_cases h : firstHead none (marks t) = []
  · have hnil : firstHead none (marks t ++ [x]) = [] := by
      by_contra hne
      obtain ⟨w, hw⟩ : ∃ w, firstHead none (marks t ++ [x]) = w ++ [x] := by
        obtain ⟨q, hq⟩ := firstHead_suffix none (marks t ++ [x])
        obtain ⟨w, y, hw⟩ := (List.eq_nil_or_concat _).resolve_left hne
        rw [hw, List.concat_eq_append, ← List.append_assoc] at hq
        exact ⟨w, by rw [hw, List.concat_eq_append, (List.append_inj' hq rfl).2]⟩
      have hb := brace_mem_of_firstHead hne
      rw [hw, chars_append, List.mem_append] at hb
      rcases hb with hb | hb
      · rw [firstHead_of_append hw hb] at h
        subst h
        cases hb
      · simp [chars, hx] at hb
    rw [hnil, h]
  · have hb := brace_mem_of_firstHead h
    rw [firstHead_append h]
    refine declarationAt_congr ?_ ?_
    · rw [chars_append]
      exact headView_append ⟨_, hb, rfl⟩ _ _
    · rw [openingMarks_append hb]
      exact bodyAt?_append (closeAfter?_concat (by rw [hx]; rfl) (openingMarks_ne_nil hb))

/-! ### Marks that start no binding -/

/-- No binding starts at any of the marks. -/
def IsQuiet (ms : List Mark) : Prop := ∀ m ∈ ms, ∀ before, mayStartBinding before m = false

theorem firstHead_congr {before before' : Option Char}
    (h : Token.startsWord before = Token.startsWord before') (ms : List Mark) :
    firstHead before ms = firstHead before' ms := by
  cases ms with
  | nil => rfl
  | cons m ms => rw [firstHead, firstHead, startsBinding_congr h rfl]

/-- Marks that start no binding may be left out in front of a word. -/
theorem firstHead_quiet_append {ms : List Mark} (hq : IsQuiet ms)
    (hl : ∀ m ∈ ms.getLast?, Token.startsWord (some m.char) = true) {before : Option Char}
    (hb : ms = [] → Token.startsWord before = true) (r : List Mark) :
    firstHead before (ms ++ r) = firstHead none r := by
  induction ms generalizing before with
  | nil => exact firstHead_congr (hb rfl) r
  | cons m ms ih =>
    have hm : startsBinding before (m :: (ms ++ r)) = false := by
      rw [startsBinding, hq m List.mem_cons_self]
      rfl
    rw [List.cons_append, firstHead, if_neg (by simp [hm])]
    refine ih (fun x hx => hq x (List.mem_cons_of_mem m hx)) ?_ ?_
    · intro x hx
      refine hl x ?_
      cases ms with
      | nil => cases hx
      | cons m' ms => simpa using hx
    · rintro rfl
      exact hl m rfl

/-- A closed text that starts no binding may be left out in front. -/
theorem declaration?_quiet_append {a : Text} (ha : a = [] ∨ Closed a) (hq : IsQuiet (marks a))
    (b : Text) : declaration? (a ++ b) = declaration? b := by
  rcases ha with rfl | ha
  · rfl
  · rw [declaration?_eq, declaration?_eq, ha.marks_append, firstHead_quiet_append hq]
    · intro m hm
      have hc : (chars (marks a)).getLast? = some m.char := by
        rw [chars, List.getLast?_map, hm]
        rfl
      rw [chars_marks] at hc
      rcases ha with ha | ha <;> rw [← hc, ha.getLast?] <;> rfl
    · exact fun _ => rfl

end ElementModules.Script
