import ElementModules.Proofs.Script.Fields
import ElementModules.Proofs.Script.Offsets
import ElementModules.Proofs.Text.Slices

/-!
# Where fields stand

The fields of a body are read piece by piece, and each piece counts its offsets on from the last.
The commas between fields can also be searched for by offset in the whole body. Both go through the
body in the same way: a piece without such commas, the comma, and the rest as if it stood alone. So
each field stands between two neighbouring commas, or between a comma and an end of the body, and no
cut at its offsets goes through a character.

## Main results

* `commasFrom_comma`, `fieldsFrom_comma`: searching and reading piece by piece.
* `exists_isPieceOf`: each field is a piece between commas.
* `pairwise_fieldsFrom`: fields stand one behind the other.
* `isPlaced_of_mem_fields`: where a field stands.
-/

namespace ElementModules.Script

open Text

/-! ### Commas -/

/-- The offsets of the commas between fields, of a text that begins at an offset. -/
def commasFrom (offset : Nat) (t : Text) : List Nat :=
  ((occurrencesFrom [','] offset 0 (marks t)).filter fun o => o.2.isTopLevel).map Prod.fst

theorem isPrefixOf_comma (m : Mark) (ms : List Mark) :
    List.isPrefixOf [','] (chars (m :: ms)) = (',' == m.char) := by
  simp [chars, List.isPrefixOf]

theorem occurrencesFrom_comma_append (offset : Nat) (a b : List Mark) :
    occurrencesFrom [','] offset 0 (a ++ b)
      = occurrencesFrom [','] offset 0 a ++ occurrencesFrom [','] (offset + sizeOf a) 0 b := by
  induction a generalizing offset with
  | nil => rfl
  | cons m a ih =>
    have hsize : offset + sizeOf (m :: a) = offset + m.size + sizeOf a := by
      rw [sizeOf_cons, Nat.add_assoc]
    rw [List.cons_append, occurrencesFrom, occurrencesFrom, isPrefixOf_comma, isPrefixOf_comma,
      hsize]
    split
    · exact congrArg _ (ih _)
    · exact ih _

theorem mem_of_mem_occurrencesFrom {offset : Nat} {ms : List Mark} {o : Nat × Mark}
    (h : o ∈ occurrencesFrom [','] offset 0 ms) : o.2 ∈ ms ∧ o.2.char = ',' := by
  induction ms generalizing offset with
  | nil => cases h
  | cons m ms ih =>
    rw [occurrencesFrom] at h
    split at h
    next hp =>
      rcases List.mem_cons.1 h with rfl | h
      · rw [isPrefixOf_comma] at hp
        exact ⟨List.mem_cons_self, (beq_iff_eq.1 hp).symm⟩
      · exact (ih h).imp (List.mem_cons_of_mem m) id
    next => exact (ih h).imp (List.mem_cons_of_mem m) id

theorem commasFrom_last {p : Text} (h : IsCommaFree p) (offset : Nat) :
    commasFrom offset p = [] := by
  rw [commasFrom, List.map_eq_nil_iff, List.filter_eq_nil_iff]
  intro o ho htop
  obtain ⟨hm, hchar⟩ := mem_of_mem_occurrencesFrom ho
  have hno := h o.2 hm
  rw [isComma, hchar, htop] at hno
  cases hno

theorem commasFrom_comma {p : Text} (h : IsCommaFree p) (htop : (endState p).IsTopLevelAt ',')
    (offset : Nat) (b : Text) : commasFrom offset (p ++ ',' :: b)
      = (offset + size p) :: commasFrom (offset + size p + 1) b := by
  have hnone := commasFrom_last h offset
  rw [commasFrom, List.map_eq_nil_iff] at hnone
  rw [commasFrom, marks_comma htop, occurrencesFrom_comma_append, List.filter_append, hnone,
    sizeOf_marks]
  rfl

theorem le_of_mem_commasFrom {offset o : Nat} {t : Text} (h : o ∈ commasFrom offset t) :
    offset ≤ o := by
  induction t using comma_induction generalizing offset with
  | last p hp =>
    rw [commasFrom_last hp] at h
    cases h
  | comma p b hp htop ih =>
    rw [commasFrom_comma hp htop] at h
    rcases List.mem_cons.1 h with rfl | h
    · omega
    · have := ih h
      omega

/-! ### Fields -/

/-- The fields of a body that begins at an offset. -/
def fieldsFrom (offset : Nat) (t : Text) : List Field :=
  fieldsOf offset (commaPieces (marks t))

theorem fieldsOf_cons (offset : Nat) (p : List Mark) (comma : Bool) (ps : List (List Mark × Bool)) :
    fieldsOf offset ((p, comma) :: ps) = fieldsOf offset [(p, comma)]
      ++ fieldsOf (offset + sizeOf p + if comma then 1 else 0) ps := by
  rw [fieldsOf, fieldsOf]
  split <;> rfl

theorem fieldsFrom_last {p : Text} (h : IsCommaFree p) (offset : Nat) :
    fieldsFrom offset p = fieldsOf offset [(marks p, false)] := by
  rw [fieldsFrom, commaPieces_last h]

theorem fieldsFrom_comma {p : Text} (h : IsCommaFree p) (htop : (endState p).IsTopLevelAt ',')
    (offset : Nat) (b : Text) : fieldsFrom offset (p ++ ',' :: b)
      = fieldsOf offset [(marks p, true)] ++ fieldsFrom (offset + size p + 1) b := by
  rw [fieldsFrom, marks_comma htop, commaPieces_comma h rfl, fieldsOf_cons, sizeOf_marks]
  rfl

/-- The field of a piece stands where the piece stands. -/
theorem of_mem_fieldsOf_piece {offset : Nat} {p : Text} {comma : Bool} {f : Field}
    (h : f ∈ fieldsOf offset [(marks p, comma)]) : f.span = ⟨offset, offset + size p⟩
      ∧ f.spanWithComma = ⟨offset, offset + size p + if comma then 1 else 0⟩
      ∧ f.text = trim p ∧ p ≠ [] := by
  rw [fieldsOf, sizeOf_marks, chars_marks] at h
  split at h
  next => cases h
  next hblank =>
    obtain rfl := List.mem_singleton.1 h
    refine ⟨rfl, rfl, rfl, ?_⟩
    rintro rfl
    exact hblank rfl

/-- A field of a body that begins at an offset is the piece `p` between `x` and `y`. -/
structure Field.IsPieceOf (offset : Nat) (t x p y : Text) (f : Field) : Prop where
  split : t = x ++ (p ++ y)
  ne_nil : p ≠ []
  text : f.text = trim p
  span : f.span = ⟨offset + size x, offset + size x + size p⟩
  /-- In front of it stands nothing, or a comma between fields. -/
  front : x = [] ∨ ∃ o ∈ commasFrom offset t, f.span.start = o + 1
  /-- Behind it stands nothing, or a comma between fields. -/
  back : y = [] ∧ f.spanWithComma = f.span
    ∨ (∃ z, y = ',' :: z) ∧ f.span.stop ∈ commasFrom offset t
      ∧ f.spanWithComma = ⟨f.span.start, f.span.stop + 1⟩
  /-- No comma between fields stands in it. -/
  commaFree : ∀ o ∈ commasFrom offset t, o < f.span.start ∨ f.span.stop ≤ o

theorem isPieceOf_last {p : Text} (hp : IsCommaFree p) {offset : Nat} {f : Field}
    (h : f ∈ fieldsOf offset [(marks p, false)]) : f.IsPieceOf offset p [] p [] := by
  obtain ⟨hspan, hcomma, htext, hne⟩ := of_mem_fieldsOf_piece h
  refine ⟨(List.append_nil p).symm, hne, htext, hspan, .inl rfl,
    .inl ⟨rfl, hcomma.trans hspan.symm⟩, fun o ho => ?_⟩
  rw [commasFrom_last hp] at ho
  cases ho

section Comma

variable {p : Text} (hp : IsCommaFree p) (htop : (endState p).IsTopLevelAt ',') {offset : Nat}
  {b : Text} {f : Field}
include hp htop

theorem isPieceOf_first (h : f ∈ fieldsOf offset [(marks p, true)]) :
    f.IsPieceOf offset (p ++ ',' :: b) [] p (',' :: b) := by
  obtain ⟨hspan, hcomma, htext, hne⟩ := of_mem_fieldsOf_piece h
  have hcommas := commasFrom_comma hp htop offset b
  refine ⟨rfl, hne, htext, hspan, .inl rfl, .inr ⟨⟨b, rfl⟩, ?_, ?_⟩, fun o ho => .inr ?_⟩
  · rw [hspan, hcommas]
    exact List.mem_cons_self
  · rw [hspan]
    exact hcomma
  · rw [hcommas] at ho
    rw [hspan]
    rcases List.mem_cons.1 ho with rfl | ho
    · exact Nat.le_refl _
    · have := le_of_mem_commasFrom ho
      show offset + size p ≤ o
      omega

/-- Behind a comma a field stands where it stands in the rest. -/
theorem Field.IsPieceOf.behind {x q y : Text} (h : f.IsPieceOf (offset + size p + 1) b x q y) :
    f.IsPieceOf offset (p ++ ',' :: b) (p ++ ',' :: x) q y := by
  have hcommas := commasFrom_comma hp htop offset b
  have hsize : offset + size (p ++ ',' :: x) = offset + size p + 1 + size x := by
    rw [size_append, size_cons, show Char.utf8Size ',' = 1 from rfl]
    omega
  have hstart : offset + size p < f.span.start := by
    rw [h.span]
    show offset + size p < offset + size p + 1 + size x
    omega
  have hmem : ∀ {o}, o ∈ commasFrom (offset + size p + 1) b →
      o ∈ commasFrom offset (p ++ ',' :: b) := by
    intro o ho
    rw [hcommas]
    exact List.mem_cons_of_mem _ ho
  refine ⟨by rw [h.split]; simp, h.ne_nil, h.text, by rw [hsize]; exact h.span, .inr ?_,
    h.back.imp id fun hb => ⟨hb.1, hmem hb.2.1, hb.2.2⟩, fun o ho => ?_⟩
  · rcases h.front with rfl | ⟨o, ho, hs⟩
    · refine ⟨offset + size p, ?_, by rw [h.span]; rfl⟩
      rw [hcommas]
      exact List.mem_cons_self
    · exact ⟨o, hmem ho, hs⟩
  · rw [hcommas] at ho
    rcases List.mem_cons.1 ho with rfl | ho
    · exact .inl hstart
    · exact h.commaFree o ho

end Comma

/-- **Where a field stands** in a body that begins at an offset: between neighbouring commas. -/
theorem exists_isPieceOf {offset : Nat} {t : Text} {f : Field} (h : f ∈ fieldsFrom offset t) :
    ∃ x p y, f.IsPieceOf offset t x p y := by
  induction t using comma_induction generalizing offset with
  | last p hp =>
    rw [fieldsFrom_last hp] at h
    exact ⟨_, _, _, isPieceOf_last hp h⟩
  | comma p b hp htop ih =>
    rw [fieldsFrom_comma hp htop] at h
    rcases List.mem_append.1 h with h | h
    · exact ⟨_, _, _, isPieceOf_first hp htop h⟩
    · obtain ⟨x, q, y, h⟩ := ih h
      exact ⟨_, _, _, h.behind hp htop⟩

theorem pairwise_fieldsOf_piece (r : Field → Field → Prop) (offset : Nat) (p : List Mark)
    (comma : Bool) : (fieldsOf offset [(p, comma)]).Pairwise r := by
  rcases fieldsOf_piece_cases offset p comma with h | ⟨f, h⟩ <;> rw [h]
  · exact .nil
  · exact List.pairwise_singleton r f

/-- **Fields stand one behind the other**, a comma between neighbours. -/
theorem pairwise_fieldsFrom (offset : Nat) (t : Text) :
    (fieldsFrom offset t).Pairwise fun f g => f.span.stop < g.span.start := by
  induction t using comma_induction generalizing offset with
  | last p hp =>
    rw [fieldsFrom_last hp]
    exact pairwise_fieldsOf_piece _ offset (marks p) false
  | comma p b hp htop ih =>
    rw [fieldsFrom_comma hp htop, List.pairwise_append]
    refine ⟨pairwise_fieldsOf_piece _ offset (marks p) true, ih _, fun f hf g hg => ?_⟩
    obtain ⟨hf, -⟩ := of_mem_fieldsOf_piece hf
    obtain ⟨x, q, y, hg⟩ := exists_isPieceOf hg
    rw [hf, hg.span]
    show offset + size p < offset + size p + 1 + size x
    omega

/-- A field stands in a body where its offsets say. -/
structure Field.IsPlaced (t : Text) (f : Field) : Prop where
  /-- The field is not empty. -/
  start_lt : f.span.start < f.span.stop
  /-- No offset lies inside a character. -/
  boundary : ∀ n ∈ [f.span.start, f.span.stop, f.spanWithComma.stop], IsBoundary t n
  /-- Between its offsets stands the text of the field, with blanks around it. -/
  slice : (slice? t f.span).map trim = some f.text
  /-- The field begins the body, or stands right behind a comma between fields. -/
  front : f.span.start = 0 ∨ ∃ o ∈ topLevelOccurrences [','] (marks t), f.span.start = o + 1
  /-- It ends the body, or a comma between fields follows it. -/
  back : f.span.stop = size t ∧ f.spanWithComma = f.span
    ∨ f.span.stop ∈ topLevelOccurrences [','] (marks t)
      ∧ f.spanWithComma = ⟨f.span.start, f.span.stop + 1⟩
  /-- No comma between fields stands in it. -/
  commaFree : ∀ o ∈ topLevelOccurrences [','] (marks t), o < f.span.start ∨ f.span.stop ≤ o

theorem isPlaced_of_mem_fields {t : Text} {f : Field} (h : f ∈ fields t) : f.IsPlaced t := by
  obtain ⟨x, p, y, hpiece⟩ := exists_isPieceOf (show f ∈ fieldsFrom 0 t from h)
  have ht := hpiece.split
  have hspan := hpiece.span
  rw [Nat.zero_add] at hspan
  have hpos : 0 < size p := Nat.pos_of_ne_zero fun hz => hpiece.ne_nil (size_eq_zero.1 hz)
  have hsize : size (x ++ p) = size x + size p := size_append x p
  have hcut : IsBoundary t (size x + size p) := ⟨x ++ p, y, by rw [ht, List.append_assoc], hsize⟩
  refine ⟨?_, ?_, ?_, hpiece.front.imp (fun hx => ?_) id,
    hpiece.back.imp (fun hy => ⟨?_, hy.2⟩) And.right, hpiece.commaFree⟩
  · rw [hspan]
    show size x < size x + size p
    omega
  · rcases hpiece.back with ⟨-, hcomma⟩ | ⟨⟨z, rfl⟩, -, hcomma⟩ <;> rw [hcomma, hspan] <;>
      simp only [List.forall_mem_cons, List.not_mem_nil, false_implies, implies_true, and_true]
    · exact ⟨⟨x, p ++ y, ht, rfl⟩, hcut, hcut⟩
    · refine ⟨⟨x, p ++ ',' :: z, ht, rfl⟩, hcut, ⟨x ++ p ++ [','], z, by rw [ht]; simp, ?_⟩⟩
      rw [size_append, hsize]
      rfl
  · rw [hspan, ht, ← hsize, slice?_append, hpiece.text]
    rfl
  · rw [hspan, hx]
    rfl
  · rw [hspan, ht, hy.1, List.append_nil, hsize]

end ElementModules.Script
