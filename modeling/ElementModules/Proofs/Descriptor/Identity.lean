import ElementModules.Descriptor.Synthesis
import ElementModules.Proofs.Script.Fields

/-!
# Taking out the identity fields

The fields that the frame writes are taken out of a body piece by piece. Since the scan starts anew
behind each comma, the other pieces are scanned as before: what is left holds only marks of the body
(`mem_marks_withoutIdentity`), ends as the body does or as if it were empty
(`endState_withoutIdentity`), and has the other fields of the body (`gists_withoutIdentity`).

## Main results

* `isBalanced_withoutIdentity`, `closesQuotes_withoutIdentity`, `isBody_withoutIdentity`.
* `gists_withoutIdentity`: the fields that are left.
-/

namespace ElementModules.Descriptor

open Text Script

/-- Whether a core is that of a field that the frame writes. -/
def isIdentityCore (c : Option Text × FieldKind × List Mark) : Bool :=
  c.2.1 = .property && c.1.any fun key => identityFieldKeys.contains key

/-- Whether a piece of a body holds a field that the frame writes. -/
def isIdentityPiece (p : List Mark) : Bool := (coresOf p).any isIdentityCore

theorem any_isIdentityField (p : List Mark × Bool) :
    (fieldsOf 0 [p]).any isIdentityField = isIdentityPiece p.1 := by
  have hfield : isIdentityField = (isIdentityCore ∘ coreOf) ∘ Field.gist := rfl
  have hgists := map_gist_fieldsOf 0 [p]
  rw [List.flatMap_singleton] at hgists
  rw [isIdentityPiece, coresOf, ← hgists, List.map_map, List.any_map, hfield]
  rfl

theorem withoutIdentity_last {p : Text} (h : IsCommaFree p) :
    withoutIdentity p = if isIdentityPiece (marks p) then [] else p := by
  rw [withoutIdentity, commaPieces_last h]
  simp only [any_isIdentityField]
  cases hi : isIdentityPiece (marks p) <;> simp [hi, pieceText]

theorem withoutIdentity_comma {p : Text} (h : IsCommaFree p) (htop : (endState p).IsTopLevelAt ',')
    (b : Text) : withoutIdentity (p ++ ',' :: b)
      = if isIdentityPiece (marks p) then withoutIdentity b else p ++ ',' :: withoutIdentity b := by
  rw [withoutIdentity, marks_comma htop, commaPieces_comma h rfl, withoutIdentity]
  simp only [any_isIdentityField]
  cases hi : isIdentityPiece (marks p) <;> simp [hi, pieceText]

/-- What is left is scanned as before. -/
theorem mem_marks_withoutIdentity {t : Text} {m : Mark} (h : m ∈ marks (withoutIdentity t)) :
    m ∈ marks t := by
  induction t using comma_induction with
  | last p hp =>
    rw [withoutIdentity_last hp] at h
    split at h
    · cases h
    · exact h
  | comma p b hp htop ih =>
    rw [withoutIdentity_comma hp htop] at h
    rw [mem_marks_comma htop]
    split at h
    · exact .inr (.inr (ih h))
    · rw [mem_marks_comma htop] at h
      exact h.imp id (Or.imp id ih)

/-- What is left ends as the body does, or as an empty text. -/
theorem endState_withoutIdentity (t : Text) :
    endState (withoutIdentity t) = endState t ∨ endState (withoutIdentity t) = .start := by
  induction t using comma_induction with
  | last p hp =>
    rw [withoutIdentity_last hp]
    split
    · exact .inr rfl
    · exact .inl rfl
  | comma p b hp htop ih =>
    rw [withoutIdentity_comma hp htop, endState_comma htop]
    split
    · exact ih
    · rw [endState_comma htop]
      exact ih

theorem isBalanced_withoutIdentity {t : Text} (h : isBalanced t = true) :
    isBalanced (withoutIdentity t) = true := by
  rw [isBalanced] at h ⊢
  rcases endState_withoutIdentity t with he | he <;> rw [he]
  · exact h
  · rfl

theorem closesQuotes_withoutIdentity {t : Text} (h : closesQuotes t = true) :
    closesQuotes (withoutIdentity t) = true := by
  induction t using comma_induction with
  | last p hp =>
    rw [withoutIdentity_last hp]
    split
    · rfl
    · exact h
  | comma p b hp htop ih =>
    rw [closesQuotes_comma htop, Bool.and_eq_true] at h
    rw [withoutIdentity_comma hp htop]
    split
    · exact ih h.2
    · rw [closesQuotes_comma htop, h.1, ih h.2]
      rfl

theorem isBody_withoutIdentity {t : Text} (h : IsBody t) : IsBody (withoutIdentity t) where
  strayless m hm := h.strayless m (mem_marks_withoutIdentity hm)
  topLevel := by
    rcases endState_withoutIdentity t with he | he <;> rw [he]
    · exact h.topLevel
    · exact ⟨rfl, rfl⟩

/-- Whether a gist is that of a field that the frame writes. -/
def isIdentityGist (g : Option Text × FieldKind × Text × Option Text) : Bool :=
  g.2.1 = .property && g.1.any fun key => identityFieldKeys.contains key

theorem isIdentityPiece_eq (p : List Mark) :
    isIdentityPiece p = (gistsOf p).any isIdentityGist := by
  rw [isIdentityPiece, coresOf, List.any_map]
  rfl

/-- A piece holds one field or none. -/
theorem filter_gistsOf (p : List Mark) : (gistsOf p).filter (fun g => !isIdentityGist g)
    = if isIdentityPiece p then [] else gistsOf p := by
  rw [isIdentityPiece_eq]
  rcases gistsOf_cases p with h | ⟨g, h⟩ <;> rw [h]
  · rfl
  · cases hg : isIdentityGist g <;> simp [hg]

/-- **The fields that are left** are the other fields of the body. -/
theorem gists_withoutIdentity (t : Text) :
    gists (withoutIdentity t) = (gists t).filter fun g => !isIdentityGist g := by
  induction t using comma_induction with
  | last p hp =>
    rw [withoutIdentity_last hp, gists_last hp, filter_gistsOf]
    split
    · rfl
    · exact gists_last hp
  | comma p b hp htop ih =>
    rw [withoutIdentity_comma hp htop, gists_comma hp htop, List.filter_append, filter_gistsOf,
      ← ih]
    split
    · rfl
    · exact gists_comma hp htop _

theorem cores_withoutIdentity (t : Text) :
    cores (withoutIdentity t) = (cores t).filter fun c => !isIdentityCore c := by
  rw [cores_eq, gists_withoutIdentity, cores_eq, List.filter_map]
  rfl

end ElementModules.Descriptor
