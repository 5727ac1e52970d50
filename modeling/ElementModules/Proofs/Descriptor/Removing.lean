import ElementModules.Proofs.Descriptor.Identity
import ElementModules.Proofs.Script.Spans

/-!
# Cutting out the identity fields

The fields that the frame writes are taken out piece by piece, but they can also be cut out of the
whole body at the offsets that they carry (`cutOut?`). Between two cuts stands a stretch of the body
that is kept. The induction goes along the pieces, with the stretch since the last cut as a
parameter: a piece that is kept joins the stretch, and a piece that goes ends it.

## Main results

* `cutOut?_identitySpansFrom`: cutting by offset is taking out piece by piece.
* `withoutIdentity_exact`: what is cut out, and which fields are left.
-/

namespace ElementModules.Descriptor

open Text Script

/-- A text from a cursor on, without the pieces between the given offsets. There is none if a cut
cannot be made. -/
def cutOut? (t : Text) : Nat → List Span → Option Text
  | cursor, [] => slice? t ⟨cursor, size t⟩
  | cursor, s :: ss =>
    (slice? t ⟨cursor, s.start⟩).bind fun a => (cutOut? t s.stop ss).map fun b => a ++ b

/-- Where the fields that the frame writes stand with their commas, in a body that begins at an
offset. -/
def identitySpansFrom (offset : Nat) (t : Text) : List Span :=
  ((fieldsFrom offset t).filter isIdentityField).map Field.spanWithComma

theorem identitySpans_piece (offset : Nat) (p : Text) (comma : Bool) :
    ((fieldsOf offset [(marks p, comma)]).filter isIdentityField).map Field.spanWithComma
      = if isIdentityPiece (marks p) then [⟨offset, offset + size p + if comma then 1 else 0⟩]
        else [] := by
  have hany : isIdentityPiece (marks p)
      = (fieldsOf offset [(marks p, comma)]).any isIdentityField := by
    have hgists := map_gist_fieldsOf offset [(marks p, comma)]
    rw [List.flatMap_singleton] at hgists
    rw [isIdentityPiece_eq, ← hgists, List.any_map]
    rfl
  rw [hany]
  rcases fieldsOf_piece_cases offset (marks p) comma with h | ⟨f, h⟩
  · rw [h]
    rfl
  · obtain ⟨-, hspan, -⟩ := of_mem_fieldsOf_piece (h ▸ List.mem_singleton_self f)
    rw [h, ← hspan]
    cases hf : isIdentityField f <;> simp [hf]

theorem identitySpansFrom_last {p : Text} (h : IsCommaFree p) (offset : Nat) :
    identitySpansFrom offset p
      = if isIdentityPiece (marks p) then [⟨offset, offset + size p⟩] else [] := by
  rw [identitySpansFrom, fieldsFrom_last h, identitySpans_piece]
  rfl

theorem identitySpansFrom_comma {p : Text} (h : IsCommaFree p)
    (htop : (endState p).IsTopLevelAt ',') (offset : Nat) (b : Text) :
    identitySpansFrom offset (p ++ ',' :: b)
      = (if isIdentityPiece (marks p) then [⟨offset, offset + size p + 1⟩] else [])
        ++ identitySpansFrom (offset + size p + 1) b := by
  rw [identitySpansFrom, fieldsFrom_comma h htop, List.filter_append, List.map_append,
    identitySpans_piece]
  rfl

theorem slice?_stretch (a q b : Text) :
    slice? (a ++ (q ++ b)) ⟨size a, size a + size q⟩ = some q := by
  rw [← size_append]
  exact slice?_append a q b

/-- **Cutting by offset** is taking out piece by piece. In front of the cursor stands `a`, and since
the last cut `q` has been kept. -/
theorem cutOut?_identitySpansFrom (a q t : Text) :
    cutOut? (a ++ (q ++ t)) (size a) (identitySpansFrom (size a + size q) t)
      = some (q ++ withoutIdentity t) := by
  induction t using comma_induction generalizing a q with
  | last p hp =>
    rw [identitySpansFrom_last hp, withoutIdentity_last hp]
    split
    next =>
      have hend : slice? (a ++ (q ++ p)) ⟨size a + size q + size p, size (a ++ (q ++ p))⟩
          = some [] := by
        have h := slice?_append_end (a ++ (q ++ p)) []
        rw [List.append_nil] at h
        rwa [size_append, size_append, ← Nat.add_assoc] at h ⊢
      rw [cutOut?, cutOut?, slice?_stretch, hend]
      rfl
    next => exact slice?_append_end a (q ++ p)
  | comma p b hp htop ih =>
    rw [identitySpansFrom_comma hp htop, withoutIdentity_comma hp htop]
    split
    next =>
      -- The piece goes, so the next stretch begins behind its comma.
      have hbehind : size (a ++ (q ++ (p ++ [',']))) = size a + size q + size p + 1 := by
        simp only [size_append, Nat.add_assoc]
        rfl
      have hrest := ih (a ++ (q ++ (p ++ [',']))) []
      rw [hbehind] at hrest
      simp only [List.append_assoc, List.nil_append, List.cons_append] at hrest
      rw [List.singleton_append, cutOut?, slice?_stretch]
      exact congrArg (·.map (q ++ ·)) hrest
    next =>
      have hmore : size (q ++ (p ++ [','])) = size q + size p + 1 := by
        simp only [size_append, Nat.add_assoc]
        rfl
      have hrest := ih a (q ++ (p ++ [',']))
      rw [hmore] at hrest
      simpa only [List.append_assoc, List.nil_append, List.cons_append, Nat.add_assoc] using hrest

/-- **Identity fields are taken out exactly.** Of every body, balanced or not, the other fields are
left, the same in key, kind, text and value and in the same order, and all that goes is what stands
at the offsets of the identity fields with their commas. Fields stand one behind the other; each
begins and ends at characters, next to the commas between fields, and holds none of these commas. -/
theorem withoutIdentity_exact (t : Text) :
    (fields (withoutIdentity t)).map Field.gist
        = ((fields t).filter fun f => !isIdentityField f).map Field.gist
      ∧ cutOut? t 0 (((fields t).filter isIdentityField).map Field.spanWithComma)
          = some (withoutIdentity t)
      ∧ (fields t).Pairwise (fun f g => f.span.stop < g.span.start)
      ∧ ∀ f ∈ fields t, f.IsPlaced t := by
  have hgists : gists (withoutIdentity t)
      = ((fields t).filter fun f => !isIdentityField f).map Field.gist := by
    rw [gists_withoutIdentity, gists, List.filter_map]
    rfl
  exact ⟨hgists, cutOut?_identitySpansFrom [] [] t, pairwise_fieldsFrom 0 t,
    fun _ => isPlaced_of_mem_fields⟩

/-- Two identity fields side by side, a comment that belongs to the second, an empty piece, a field
whose key is quoted, and a call that is never closed. -/
def openEndedBody : Text := "type: 'a', /* é */ label: 'b',, keep, 'category': c, f(library: 1,"

example : withoutIdentity openEndedBody = ", keep, f(library: 1,"
    ∧ (fields openEndedBody).map (fun f => (f.key, f.span))
      = [(some ("type" : Text), ⟨0, 9⟩), (some ("label" : Text), ⟨10, 30⟩),
        (some ("keep" : Text), ⟨32, 37⟩), (some ("category" : Text), ⟨38, 52⟩),
        (some ("f" : Text), ⟨53, 67⟩)] := by decide

end ElementModules.Descriptor
