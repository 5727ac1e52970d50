import ElementModules.Proofs.Script.Cursors
import ElementModules.Proofs.Script.Placed

/-!
# Literals read by offset

The literals of a text can be found by offset alone: every offset of a byte is tried, a cursor reads
the head, the closing brace is looked up, or the lines are gone through from one line feed to the next,
and each piece is cut out of the text where it is needed. A cut that cannot be made (out of range,
inside a character, or with its ends in the wrong order) leaves the whole reading without an answer.

No such cut is ever made, whatever the text is, balanced or not: reading by offset gives the literals
that are read character by character (`slicedLiterals?_eq`). An offset inside a character starts
nothing, since the bytes there are none of ASCII. All other offsets in question are those of
characters that the reading has gone past: the brace of a head, the brace that closes it, line feeds,
and what is left of a piece that has been trimmed at its end.

## Main results

* `stretch?_eq`, `literalBoundAt?_eq`: one literal.
* `literalsOver?_cons`: one character, of whose offsets only the first counts.
* `slicedLiterals?_eq`: reading by offset.
* `literals_placed`: literals stand where they say, in order, and every cut can be made.
-/

namespace ElementModules.Script

open Text

/-! ### Reading by offset -/

/-- The offset of the brace that closes the bracket at an offset. -/
def closingBrace? (t : Text) (opening : Nat) : Option (Option Nat) :=
  match closeOffset? (marks t) opening with
  | none => some none
  | some close => ((octets t)[close]?).map fun c => if c = '\x7d' then some close else none

/-- The offset of the first line feed of a text. -/
def lineFeed? (t : Text) : Option Nat :=
  if '\n' ∈ t then some (size (firstLine t)) else none

/-- The start of the first line that ends an open literal, of those from an offset on; the end of the
text if there is none. -/
def endingLine? (t : Text) (start : Nat) : Option Nat :=
  if start < size t then
    (slice? t ⟨start, size t⟩).bind fun rest =>
      (slice? t ⟨start, (lineFeed? rest).elim (size t) (start + ·)⟩).bind fun line =>
        if endsOpenLiteral (trimStart line) then some start
        else endingLine? t ((lineFeed? rest).elim (size t) (start + ·) + 1)
  else some (size t)
termination_by size t - start
decreasing_by cases lineFeed? rest <;> simp only [Option.elim] <;> omega

/-- Where the lines of a literal that is never closed end. -/
def openEnd? (t : Text) (opening : Nat) : Option Nat :=
  (slice? t ⟨opening, size t⟩).bind fun rest =>
    match lineFeed? rest with
    | none => some (size t)
    | some n => endingLine? t (opening + n + 1)

/-- Where the literal with its brace at an offset stands, its body, and how its end was found. -/
def stretch? (t : Text) (opening : Nat) : Option (Span × Text × Closing) := do
  match ← closingBrace? t opening with
  | some close =>
    let body ← slice? t ⟨opening + 1, close⟩
    return (⟨opening, close + 1⟩, body, .balanced)
  | none =>
    let stop ← openEnd? t opening
    let lines ← slice? t ⟨opening, stop⟩
    let region := withoutSemicolon lines
    let rest ← slice? region ⟨1, size region⟩
    return (⟨opening, opening + size region⟩, dropTrailing ['\x7d'] rest, .heuristic)

/-- The literal behind a head whose statement begins at an offset. -/
def literalBehind? (t : Text) (start : Nat) (h : HeadAt) : Option ObjectLiteral := do
  let (span, body, closing) ← stretch? t h.opening
  let text ← slice? t span
  let stop := if (octets t)[span.stop]? = some ';' then span.stop + 1 else span.stop
  return ⟨h.keyword, h.identifier, h.exported, ⟨start, stop⟩, span, text, body,
    Position.ofOffset t start, closing⟩

/-- Whether a binding may start at an offset. -/
def mayStartAt (t : Text) (start : Nat) : Bool :=
  ((octets t)[start]?).any (fun c => c = 'e' || c = 'c' || c = 'l' || c = 'v')
    && placeAt t start = (some .code, 0)
    && (start = 0 || ((octets t)[start - 1]?).any fun c => Token.startsWord (some c))

/-- The literal that is bound at an offset. -/
def literalBoundAt? (t : Text) (start : Nat) : Option (Option ObjectLiteral) := do
  match ← Cursor.head? t start with
  | none => return none
  | some head =>
    let l ← literalBehind? t start head
    return some l

/-- The literals bound at some offsets, of which those in front of `skip` belong to the last one. -/
def literalsOver? (t : Text) : Nat → List Nat → Option (List ObjectLiteral)
  | _, [] => some []
  | skip, start :: starts =>
    if start < skip || !mayStartAt t start then literalsOver? t skip starts
    else do
      match ← literalBoundAt? t start with
      | none => literalsOver? t skip starts
      | some l =>
        let ls ← literalsOver? t l.span.stop starts
        return l :: ls

/-- The literals of a text, read by offset. -/
def slicedLiterals? (t : Text) : Option (List ObjectLiteral) :=
  literalsOver? t 0 (List.range (size t))

/-! ### Lines -/

theorem lines_append_newline {x : Text} (hx : '\n' ∉ x) (t : Text) :
    lines (x ++ '\n' :: t) = (x ++ ['\n']) :: lines t := by
  induction x with
  | nil => rw [List.nil_append, lines, if_pos rfl, List.nil_append]
  | cons c x ih =>
    rw [List.mem_cons, not_or] at hx
    rw [List.cons_append, lines, if_neg (Ne.symm hx.1), ih hx.2]
    rfl

theorem lines_of_no_newline {t : Text} (ht : '\n' ∉ t) (hne : t ≠ []) : lines t = [t] := by
  induction t with
  | nil => exact absurd rfl hne
  | cons c t ih =>
    rw [List.mem_cons, not_or] at ht
    rw [lines, if_neg (Ne.symm ht.1)]
    cases t with
    | nil => rfl
    | cons d t => rw [ih ht.2 (List.cons_ne_nil d t)]

/-- A text up to its first line feed. -/
theorem lineFeed?_cases (t : Text) :
    (∃ x s, t = x ++ '\n' :: s ∧ '\n' ∉ x ∧ lineFeed? t = some (size x))
      ∨ '\n' ∉ t ∧ lineFeed? t = none := by
  by_cases h : '\n' ∈ t
  · obtain ⟨x, s, rfl, hx⟩ := List.eq_append_cons_of_mem h
    have hfirst : firstLine (x ++ '\n' :: s) = x := by
      rw [firstLine, takeWhile_append_cons (by simp), List.takeWhile_eq_self_iff]
      exact fun c hc => by simpa using ne_of_mem_of_not_mem hc hx
    exact .inl ⟨x, s, rfl, hx, by rw [lineFeed?, if_pos h, hfirst]⟩
  · exact .inr ⟨h, if_neg h⟩

theorem contains_append_newline {w : Text} (hw : '\n' ∉ w) (t : Text) :
    contains w (t ++ ['\n']) = contains w t := by
  induction t with
  | nil =>
    have hpre := isPrefixOf_append_of_not_mem hw [] []
    rw [List.nil_append] at hpre
    rw [List.nil_append, contains, contains, hpre]
    cases w <;> rfl
  | cons c t ih =>
    have hpre := isPrefixOf_append_of_not_mem hw (c :: t) []
    rw [List.cons_append] at hpre ⊢
    rw [contains, contains, hpre, ih]

theorem dropLeading?_append_newline {w : Text} (hw : '\n' ∉ w) (t : Text) :
    dropLeading? w (t ++ ['\n']) = (dropLeading? w t).map (· ++ ['\n']) := by
  rw [dropLeading?, dropLeading?, isPrefixOf_append_of_not_mem hw]
  split
  next h =>
    obtain ⟨u, rfl⟩ := List.isPrefixOf_iff_prefix.1 h
    rw [List.append_assoc, List.drop_left, List.drop_left, Option.map_some]
  next => rfl

/-- The line feed of a line does not tell whether the line ends an open literal. -/
theorem endsOpenLiteral_append_newline (x : Text) :
    endsOpenLiteral (trimStart (x ++ ['\n'])) = endsOpenLiteral (trimStart x) := by
  have hends : ∀ y : Text, endsOpenLiteral (y ++ ['\n']) = endsOpenLiteral y := by
    intro y
    rw [endsOpenLiteral, endsOpenLiteral, dropLeading?_append_newline (by decide),
      contains_append_newline (by decide), startsWith, startsWith,
      isPrefixOf_append_of_not_mem (by decide), Option.any_map]
    congr 3
    funext z
    cases z with
    | nil => rfl
    | cons c z => rfl
  rw [trimStart, trimStart, List.dropWhile_append]
  split
  next h =>
    rw [List.isEmpty_iff.1 h]
    rfl
  next => exact hends _

/-- **Going from line to line** ends in front of the first line that ends an open literal. -/
theorem endingLine?_eq (p s : Text) :
    endingLine? (p ++ s) (size p) = some (size (p ++
      ((lines s).takeWhile fun l => !endsOpenLiteral (trimStart l)).flatten)) := by
  induction hn : s.length using Nat.strongRecOn generalizing p s with
  | ind n ih =>
  rw [endingLine?]
  split
  next hlt =>
    have hne : s ≠ [] := by
      rintro rfl
      exact absurd hlt (by simp)
    rw [slice?_append_end, Option.bind_some]
    rcases lineFeed?_cases s with ⟨x, u, rfl, hx, hfeed⟩ | ⟨hs, hfeed⟩
    · rw [hfeed, Option.elim_some, ← size_append, slice?_append, Option.bind_some, lines_append_newline hx,
        List.takeWhile_cons, endsOpenLiteral_append_newline]
      cases endsOpenLiteral (trimStart x) with
      | true => simp
      | false =>
        have hnext : size (p ++ x) + 1 = size (p ++ (x ++ ['\n'])) := by
          rw [← List.append_assoc, size_append (p ++ x)]
          rfl
        have ht : p ++ (x ++ '\n' :: u) = (p ++ (x ++ ['\n'])) ++ u := by simp
        rw [hnext, ht, if_neg Bool.false_ne_true, ih u.length (by subst hn; simp; omega) _ u rfl]
        simp
    · rw [hfeed, Option.elim_none, slice?_append_end, Option.bind_some, lines_of_no_newline hs hne,
        List.takeWhile_cons]
      cases endsOpenLiteral (trimStart s) with
      | true => simp
      | false =>
        rw [if_neg Bool.false_ne_true, endingLine?, if_neg (by omega)]
        simp
  next hge =>
    have hs : s = [] := by
      rw [size_append] at hge
      exact size_eq_zero.1 (by omega)
    rw [hs]
    rfl

/-- **The lines of an open literal** end where going from line to line ends. -/
theorem openEnd?_eq (p o : Text) :
    openEnd? (p ++ o) (size p) = some (size (p ++ openLines o)) := by
  rw [openEnd?, slice?_append_end, Option.bind_some, openLines]
  rcases lineFeed?_cases o with ⟨x, u, rfl, hx, hfeed⟩ | ⟨ho, hfeed⟩
  · have hnext : size p + size x + 1 = size (p ++ (x ++ ['\n'])) := by
      rw [size_append, size_append, Nat.add_assoc]
      rfl
    have ht : p ++ (x ++ '\n' :: u) = (p ++ (x ++ ['\n'])) ++ u := by simp
    rw [hfeed, lines_append_newline hx]
    dsimp only
    rw [hnext, ht, endingLine?_eq, List.append_assoc p]
  · rw [hfeed]
    cases o with
    | nil => rfl
    | cons c o =>
      rw [lines_of_no_newline ho (List.cons_ne_nil c o)]
      simp

/-! ### One literal -/

/-- **The closing brace by its offset** is the one behind the body. -/
theorem closingBrace?_eq (p o : Text) :
    closingBrace? (p ++ '\x7b' :: o) (size p)
      = some ((bodyAt? (marksFrom (endState p) ('\x7b' :: o))).map fun w => size (p ++ '\x7b' :: w)) := by
  have hrest : fromOffset (size p) (marks (p ++ '\x7b' :: o)) = marksFrom (endState p) ('\x7b' :: o) := by
    have h := fromOffset_marks_append p ('\x7b' :: o) 0
    rwa [fromOffset_zero] at h
  rw [closingBrace?, closeOffset?, hrest, bodyAt?, chars_marksFrom]
  cases hk : closeAfter? (marksFrom (endState p) ('\x7b' :: o)) with
  | none => rfl
  | some k =>
    have hlt := (closeAfter?_append hk []).1
    rw [length_marksFrom] at hlt
    have hsize : sizeOf ((marksFrom (endState p) ('\x7b' :: o)).take k) = size (('\x7b' :: o).take k) := by
      rw [sizeOf, chars, List.map_take, ← chars, chars_marksFrom]
    obtain ⟨d, hd, hoctet⟩ := exists_octet_at (a := p ++ ('\x7b' :: o).take k)
      (b := ('\x7b' :: o).drop (k + 1)) (Nat.le_refl _)
      (Nat.lt_add_of_pos_right ('\x7b' :: o)[k].utf8Size_pos)
    rw [List.append_assoc, List.getElem_cons_drop, List.take_append_drop, size_append] at hoctet
    have hbrace := class_octet (isAsciiClass_eq (d := '\x7d') rfl) hd
    simp only [decide_eq_decide] at hbrace
    dsimp only [Option.map_some]
    rw [hsize, hoctet, Option.map_some, Option.bind_some, List.getElem?_eq_getElem hlt]
    simp only [hbrace, Option.some.injEq]
    split
    next hc =>
      cases k with
      | zero => cases hc
      | succ i => simp
    next => rfl

/-- **Where a literal ends**, read by offset. -/
theorem stretch?_eq (p o : Text) :
    stretch? (p ++ '\x7b' :: o) (size p)
      = let x := literalAt (marksFrom (endState p) ('\x7b' :: o))
        some (⟨size p, size (p ++ x.1)⟩, x.2.1, x.2.2) := by
  have hopen : size p + 1 = size (p ++ ['\x7b']) := by rw [size_append]; rfl
  rw [stretch?, closingBrace?_eq, literalAt_eq, Option.bind_eq_bind, Option.bind_some]
  cases hb : bodyAt? (marksFrom (endState p) ('\x7b' :: o)) with
  | some w =>
    obtain ⟨-, -, rest, rfl⟩ := isBody_of_bodyAt? hb
    have ht : p ++ '\x7b' :: (w ++ '\x7d' :: rest) = (p ++ ['\x7b']) ++ (w ++ '\x7d' :: rest) := by simp
    have hw : p ++ '\x7b' :: w = p ++ ['\x7b'] ++ w := by simp
    have hclose : size (p ++ '\x7b' :: w) + 1 = size (p ++ '\x7b' :: (w ++ ['\x7d'])) := by
      rw [← List.cons_append, ← List.append_assoc, size_append (p ++ '\x7b' :: w)]
      rfl
    dsimp only [Option.map_some]
    rw [hclose, ht, hopen, hw, slice?_append]
    rfl
  | none =>
    obtain ⟨z, hz⟩ := prefix_openLines ('\x7b' :: o)
    obtain ⟨v, hv, -⟩ := exists_openLines (c := '\x7b') (by decide) o
    obtain ⟨u, hu, -⟩ := exists_withoutSemicolon (c := '\x7b') (by decide) (by decide) v
    have hlines : slice? (p ++ '\x7b' :: o) ⟨size p, size (p ++ openLines ('\x7b' :: o))⟩
        = some (openLines ('\x7b' :: o)) :=
      slice?_eq_some_iff.2 ⟨p, z, by rw [hz], rfl, rfl⟩
    have hrest : slice? ('\x7b' :: u) ⟨1, size ('\x7b' :: u)⟩ = some u :=
      slice?_append_end ['\x7b'] u
    dsimp only [Option.map_none]
    rw [openEnd?_eq, Option.bind_eq_bind, Option.bind_some, hlines, Option.bind_eq_bind, Option.bind_some,
      openLiteral_eq, hv, hu]
    dsimp only
    rw [hrest, size_append]
    rfl

/-- **The literal behind a head**, read by offset. -/
theorem literalBehind?_eq {a r : Text} {b : BindingStart} (hb : BindingStart.parse? r = some b)
    {l : ObjectLiteral} {n : Nat}
    (hl : boundLiteral? (a ++ r) (size a) (marksFrom (endState a) r) = some (l, n)) :
    literalBehind? (a ++ r) (size a) (b.inText (a ++ r)) = some l := by
  obtain ⟨w, hw, -, -⟩ := BindingStart.exists_wordy_of_parse? hb
  obtain ⟨o, ho⟩ := List.head?_eq_some_iff.1 (BindingStart.parse?_eq_some hb).2.1
  rw [ho] at hw
  subst hw
  rw [boundLiteral?_eq hb ho, ← endState_append] at hl
  obtain ⟨u, hu, z, rfl⟩ := exists_literalAt_fst (endState (a ++ w)) o
  have ht : a ++ (w ++ '\x7b' :: (u ++ z)) = (a ++ w) ++ '\x7b' :: (u ++ z) := by simp
  have hz : (a ++ w) ++ '\x7b' :: (u ++ z) = (a ++ w ++ '\x7b' :: u) ++ z := by simp
  have hopening : place (a ++ (w ++ '\x7b' :: (u ++ z))) ('\x7b' :: (u ++ z)) = size (a ++ w) := by
    rw [ht, place_append]
  have hslice : slice? (a ++ w ++ '\x7b' :: (u ++ z)) ⟨size (a ++ w), size (a ++ w ++ '\x7b' :: u)⟩
      = some ('\x7b' :: u) := slice?_append (a ++ w) ('\x7b' :: u) z
  have hdrop : ('\x7b' :: (u ++ z)).drop ('\x7b' :: u).length = z := by
    rw [← List.cons_append, List.drop_left]
  have hoctet : (octets (a ++ w ++ '\x7b' :: (u ++ z)))[size (a ++ w ++ '\x7b' :: u)]? = some ';'
      ↔ z.head? = some ';' := by
    rw [hz]
    exact getElem?_octets_eq_some_iff rfl _ z
  rw [literalBehind?, BindingStart.inText, ho]
  dsimp only
  rw [hopening, ht, stretch?_eq, Option.bind_eq_bind, Option.bind_some]
  dsimp only
  rw [hu, hslice, Option.bind_eq_bind, Option.bind_some]
  simp only [hu, hdrop, Option.some.injEq, Prod.mk.injEq] at hl
  obtain ⟨rfl, -⟩ := hl
  have hstop : size (a ++ w ++ '\x7b' :: u) = size a + size w + size ('\x7b' :: u) := by
    rw [size_append, size_append]
  have hend : (if (octets (a ++ w ++ '\x7b' :: (u ++ z)))[size (a ++ w ++ '\x7b' :: u)]? = some ';'
        then size (a ++ w ++ '\x7b' :: u) + 1 else size (a ++ w ++ '\x7b' :: u))
      = size a + size w + size ('\x7b' :: u) + if z.head? = some ';' then 1 else 0 := by
    rw [← hstop]
    by_cases h : z.head? = some ';'
    · rw [if_pos (hoctet.2 h), if_pos h]
    · rw [if_neg (mt hoctet.1 h), if_neg h, Nat.add_zero]
  rw [hend, hstop, size_append, ht]
  rfl

theorem literalBoundAt?_eq (a r : Text) :
    literalBoundAt? (a ++ r) (size a)
      = some ((boundLiteral? (a ++ r) (size a) (marksFrom (endState a) r)).map Prod.fst) := by
  have hhead := Cursor.head?_place (List.suffix_append a r)
  have hbound := boundLiteral?_isSome (a ++ r) (size a) (marksFrom (endState a) r)
  rw [place_append] at hhead
  rw [chars_marksFrom] at hbound
  rw [literalBoundAt?, hhead, Option.bind_eq_bind, Option.bind_some]
  cases hb : BindingStart.parse? r with
  | none =>
    rw [hb, Option.isSome_none, Option.isSome_eq_false_iff, Option.isNone_iff_eq_none] at hbound
    rw [hbound]
    rfl
  | some b =>
    rw [hb, Option.isSome_some, Option.isSome_iff_exists] at hbound
    obtain ⟨x, hl⟩ := hbound
    rw [hl, Option.map_some]
    dsimp only
    rw [literalBehind?_eq hb hl]
    rfl

/-! ### All literals -/

theorem isAsciiClass_isInitial :
    IsAsciiClass fun c => c = 'e' || c = 'c' || c = 'l' || c = 'v' := by
  intro c hc
  simp only [Bool.or_eq_true, decide_eq_true_eq] at hc
  rcases hc with ((rfl | rfl) | rfl) | rfl <;> rfl

theorem startsWord_octet {c d : Char} (hd : d ∈ octets [c]) :
    Token.startsWord (some d) = Token.startsWord (some c) := by
  have hname := class_octet Cursor.isAsciiClass_isNameChar hd
  have hdot := class_octet (isAsciiClass_eq (d := '.') rfl) hd
  have hbeq : (d == '.') = (c == '.') := by
    rw [Bool.eq_iff_iff, beq_iff_eq, beq_iff_eq]
    exact decide_eq_decide.1 hdot
  simp only [Token.startsWord, Option.all_some, bne, hname, hbeq]

/-- **A binding may start at the offset of a character** if it may start at the character. -/
theorem mayStartAt_eq (a r : Text) (c : Char) :
    mayStartAt (a ++ c :: r) (size a)
      = mayStartBinding a.getLast? ⟨c, (endState a).layer c r.head?, (endState a).depth⟩ := by
  have hlt : size a < size a + c.utf8Size := Nat.lt_add_of_pos_right c.utf8Size_pos
  obtain ⟨d, hd, hoctet⟩ := exists_octet_at (b := r) (Nat.le_refl (size a)) hlt
  have hplace : decide (placeAt (a ++ c :: r) (size a) = (some .code, 0))
      = Mark.isTopLevel ⟨c, (endState a).layer c r.head?, (endState a).depth⟩ := by
    rw [placeAt_at (Nat.le_refl _) hlt, Mark.isTopLevel, Mark.isCode]
    simp
  have hbefore : (decide (size a = 0)
        || ((octets (a ++ c :: r))[size a - 1]?).any fun c => Token.startsWord (some c))
      = Token.startsWord a.getLast? := by
    induction a using List.reverseRecOn with
    | nil => rfl
    | append_singleton a e =>
      have he := e.utf8Size_pos
      have hsize : size (a ++ [e]) = size a + e.utf8Size := by simp
      obtain ⟨x, hx, hlast⟩ := exists_octet_at (a := a) (b := c :: r) (c := e)
        (i := size (a ++ [e]) - 1) (by omega) (by omega)
      rw [List.append_assoc, List.singleton_append, hlast, Option.any_some, startsWord_octet hx,
        List.getLast?_concat, decide_eq_false (by omega), Bool.false_or]
  rw [mayStartAt, hoctet, Option.any_some, class_octet isAsciiClass_isInitial hd, hplace, hbefore]
  rfl

/-- Nothing starts inside a character. -/
theorem mayStartAt_inside {a r : Text} {c : Char} {i : Nat} (hlt : size a < i)
    (hi : i < size a + c.utf8Size) : mayStartAt (a ++ c :: r) i = false := by
  obtain ⟨d, hd, hoctet⟩ := exists_octet_at (b := r) (Nat.le_of_lt hlt) hi
  rw [mayStartAt, hoctet, Option.any_some, class_octet isAsciiClass_isInitial hd]
  cases hc : (c = 'e' || c = 'c' || c = 'l' || c = 'v' : Bool) with
  | false => rfl
  | true =>
    have hsize := utf8Size_of_isAscii (isAsciiClass_isInitial c hc)
    omega

theorem literalsOver?_append {t : Text} {is : List Nat} (h : ∀ i ∈ is, mayStartAt t i = false)
    (skip : Nat) (js : List Nat) : literalsOver? t skip (is ++ js) = literalsOver? t skip js := by
  induction is with
  | nil => rfl
  | cons i is ih =>
    obtain ⟨hi, his⟩ := List.forall_mem_cons.1 h
    rw [List.cons_append, literalsOver?, hi, Bool.not_false, Bool.or_true, if_pos rfl, ih his]

/-- **One character.** Of its offsets only the first counts. -/
theorem literalsOver?_cons (a r : Text) (c : Char) (skip : Nat) :
    literalsOver? (a ++ c :: r) skip (List.range' (size a) (size (c :: r)))
      = let rest := fun skip => literalsOver? (a ++ c :: r) skip (List.range' (size (a ++ [c])) (size r))
        if size a < skip || !mayStartBinding a.getLast?
            ⟨c, (endState a).layer c r.head?, (endState a).depth⟩ then rest skip
        else match boundLiteral? (a ++ c :: r) (size a) (marksFrom (endState a) (c :: r)) with
          | some (l, _) => (rest l.span.stop).map (l :: ·)
          | none => rest skip := by
  have hpos := c.utf8Size_pos
  have hsize : size (a ++ [c]) = size a + c.utf8Size := by simp
  have hrange : List.range' (size a) (size (c :: r)) = size a ::
      (List.range' (size a + 1) (c.utf8Size - 1) ++ List.range' (size (a ++ [c])) (size r)) := by
    have hfirst : size (c :: r) = 1 + (c.utf8Size - 1) + size r := by rw [size_cons]; omega
    have hsecond : size (a ++ [c]) = size a + 1 + (c.utf8Size - 1) := by omega
    rw [hfirst, hsecond, Nat.add_assoc, Nat.add_comm 1, List.range'_succ, List.range'_append_1]
  have hinside : ∀ i ∈ List.range' (size a + 1) (c.utf8Size - 1), mayStartAt (a ++ c :: r) i = false := by
    intro i hi
    rw [List.mem_range'_1] at hi
    exact mayStartAt_inside (by omega) (by omega)
  rw [hrange, literalsOver?, mayStartAt_eq, literalBoundAt?_eq]
  simp only [literalsOver?_append hinside]
  cases boundLiteral? (a ++ c :: r) (size a) (marksFrom (endState a) (c :: r)) with
  | none => rfl
  | some x =>
    rw [Option.map_some, Option.bind_eq_bind, Option.bind_some]
    dsimp only
    split
    · rfl
    · cases literalsOver? (a ++ c :: r) x.1.span.stop (List.range' (size (a ++ [c])) (size r)) <;> rfl

/-- **The offsets of a stretch** give the literals of the stretch. Those in front of `skip` are the
offsets of the characters that belong to the last literal. -/
theorem literalsOver?_eq (a r : Text) {k skip : Nat} (hk : k ≤ r.length)
    (hskip : k = 0 ∧ skip ≤ size a ∨ skip = size (a ++ r.take k)) :
    literalsOver? (a ++ r) skip (List.range' (size a) (size r))
      = some (literalsFrom (a ++ r) a.getLast? (size a) k (marksFrom (endState a) r)) := by
  induction r generalizing a k skip with
  | nil => rfl
  | cons c r ih =>
    have ht : a ++ c :: r = a ++ [c] ++ r := by simp
    have hs : size a + c.utf8Size = size (a ++ [c]) := by simp
    have hpos := c.utf8Size_pos
    have hstate : (endState a).step c = endState (a ++ [c]) := (endState_append a [c]).symm
    have hlast : (a ++ [c]).getLast? = some c := List.getLast?_concat
    have hnext := fun k skip => @ih (a ++ [c]) k skip
    rw [← ht, hlast] at hnext
    rw [literalsOver?_cons, marksFrom]
    cases k with
    | succ k =>
      have htake : skip = size (a ++ [c] ++ r.take k) := by simpa using hskip
      have hlt : size a < skip := by
        rw [htake, size_append, ← hs]
        omega
      rw [literalsFrom, Mark.size, hs, hstate, decide_eq_true hlt]
      exact hnext k skip (by simpa using hk) (.inr htake)
    | zero =>
      have hle : skip ≤ size a := by
        rcases hskip with ⟨-, h⟩ | h
        · exact h
        · simp [h]
      have hrest := hnext 0 skip (Nat.zero_le _) (.inl ⟨rfl, by omega⟩)
      rw [literalsFrom, Mark.size, hs, decide_eq_false (by omega), Bool.false_or]
      cases hmay : mayStartBinding a.getLast? ⟨c, (endState a).layer c r.head?, (endState a).depth⟩ with
      | false => rw [hstate]; exact hrest
      | true =>
        rw [← marksFrom, Bool.not_true, if_neg Bool.false_ne_true, if_pos rfl, hstate]
        cases hl : boundLiteral? (a ++ c :: r) (size a) (marksFrom (endState a) (c :: r)) with
        | none => exact hrest
        | some x =>
          obtain ⟨l, n⟩ := x
          obtain ⟨-, -, hstop, hn, hle⟩ := isPlaced_of_boundLiteral? hmay hl
          obtain ⟨n, rfl⟩ := Nat.exists_eq_add_of_lt hn
          rw [Nat.zero_add] at hstop hle ⊢
          have hbehind := hnext n l.span.stop (by simpa using hle) (.inr (by rw [hstop]; simp))
          dsimp only
          rw [hbehind]
          rfl

/-- **Reading by offset** gives the literals. -/
theorem slicedLiterals?_eq (t : Text) : slicedLiterals? t = some (literals t) := by
  rw [slicedLiterals?, List.range_eq_range']
  exact literalsOver?_eq [] t (Nat.zero_le _) (.inl ⟨rfl, Nat.le_refl 0⟩)

/-- **Literals are well placed.** Every literal of a text stands where its offsets say, is made of its
body and its braces, and its head is code outside all brackets; one literal ends before the statement
of the next begins. Reading by offset finds the same literals, and every cut that it makes can be made,
whether or not the brackets of the text balance. -/
theorem literals_placed (t : Text) :
    (∀ l ∈ literals t, IsPlaced t l)
      ∧ (literals t).Pairwise (fun l m => l.span.stop ≤ m.statement.start)
      ∧ slicedLiterals? t = some (literals t) :=
  ⟨fun _ => isPlaced_of_mem_literals, pairwise_literals t, slicedLiterals?_eq t⟩

/-- A closed literal behind a character of two bytes, and one that is never closed. -/
def unclosedScript : Text := "// é\nconst a = \x7bb: '\x7d'\x7d;\nlet c = \x7bd: [;\nexport \x7b\x7d"

example : (literals unclosedScript).map (fun l => (l.statement, l.span, l.closing))
    = [(⟨6, 25⟩, ⟨16, 24⟩, .balanced), (⟨26, 40⟩, ⟨34, 39⟩, .heuristic)] := by decide

end ElementModules.Script
