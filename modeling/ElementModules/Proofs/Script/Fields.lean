import ElementModules.Proofs.Script.Commas
import ElementModules.Proofs.Script.Gaps

/-!
# The fields of a body

A field without its place is its **gist**. Each piece of a body has one gist or none, so the gists of
a body are those of its pieces (`gists_comma`), and what is looked up under a key is found there
(`stringField?_eq`).

Fields are compared by their **cores**: the key, the kind and the solid marks of the text. These do
not depend on the blanks outside of strings and templates.

## Main results

* `gists_last`, `gists_comma`: the gists of a body.
* `cores_last`, `cores_comma`: the cores of a body.
-/

namespace ElementModules.Script

open Text

/-! ### Gists -/

/-- A field without its place: its key, its kind, its text and its value. -/
def Field.gist (f : Field) : Option Text × FieldKind × Text × Option Text :=
  (f.key, f.kind, f.text, f.value)

/-- The gists of the fields of a body. -/
def gists (t : Text) : List (Option Text × FieldKind × Text × Option Text) :=
  (fields t).map Field.gist

/-- The gist of the field that a piece of a body holds, if it is not blank. -/
def gistsOf (p : List Mark) : List (Option Text × FieldKind × Text × Option Text) :=
  (fieldsOf 0 [(p, false)]).map Field.gist

theorem map_gist_fieldsOf (offset : Nat) (ps : List (List Mark × Bool)) :
    (fieldsOf offset ps).map Field.gist = ps.flatMap fun p => gistsOf p.1 := by
  induction ps generalizing offset with
  | nil => rfl
  | cons p ps ih =>
    obtain ⟨p, comma⟩ := p
    rw [List.flatMap_cons, gistsOf, fieldsOf, fieldsOf]
    split
    · exact ih _
    · rw [List.map_cons, ih]
      rfl

theorem gists_last {p : Text} (h : IsCommaFree p) : gists p = gistsOf (marks p) := by
  rw [gists, fields, commaPieces_last h, map_gist_fieldsOf, List.flatMap_singleton]

theorem gists_comma {p : Text} (h : IsCommaFree p) (htop : (endState p).IsTopLevelAt ',')
    (b : Text) : gists (p ++ ',' :: b) = gistsOf (marks p) ++ gists b := by
  rw [gists, gists, fields, fields, marks_comma htop, commaPieces_comma h rfl, map_gist_fieldsOf,
    map_gist_fieldsOf, List.flatMap_cons]

/-- A piece holds one field or none. -/
theorem fieldsOf_piece_cases (offset : Nat) (p : List Mark) (comma : Bool) :
    fieldsOf offset [(p, comma)] = [] ∨ ∃ f, fieldsOf offset [(p, comma)] = [f] := by
  rw [fieldsOf]
  split
  · exact .inl rfl
  · exact .inr ⟨_, rfl⟩

theorem gistsOf_cases (p : List Mark) : gistsOf p = [] ∨ ∃ g, gistsOf p = [g] := by
  rw [gistsOf]
  rcases fieldsOf_piece_cases 0 p false with h | ⟨f, h⟩ <;> rw [h]
  · exact .inl rfl
  · exact .inr ⟨f.gist, rfl⟩

/-- What is looked up under a key. -/
theorem stringField?_eq (t key : Text) : stringField? t key
    = ((gists t).find? fun g => g.1 = some key).bind fun g => g.2.2.2.bind Field.unquoted? := by
  have hp : (fun f : Field => decide (f.key = some key))
      = (fun g => decide (g.1 = some key)) ∘ Field.gist := rfl
  rw [stringField?, gists, List.find?_map, Option.bind_map, hp]
  rfl

/-! ### Cores -/

/-- What of a gist does not depend on the blanks outside of strings and templates. -/
def coreOf (g : Option Text × FieldKind × Text × Option Text) : Option Text × FieldKind × List Mark :=
  (g.1, g.2.1, solid (marks g.2.2.1))

/-- What of a field does not depend on the blanks outside of strings and templates: its key, its kind
and the solid marks of its text. -/
def Field.core (f : Field) : Option Text × FieldKind × List Mark :=
  (f.key, f.kind, solid (marks f.text))

/-- The fields of a body by their cores. -/
def cores (t : Text) : List (Option Text × FieldKind × List Mark) := (fields t).map Field.core

/-- The core of the field that a piece of a body holds, if it is not blank. -/
def coresOf (p : List Mark) : List (Option Text × FieldKind × List Mark) := (gistsOf p).map coreOf

theorem cores_eq (t : Text) : cores t = (gists t).map coreOf := by
  rw [cores, gists, List.map_map]
  rfl

theorem cores_last {p : Text} (h : IsCommaFree p) : cores p = coresOf (marks p) := by
  rw [cores_eq, gists_last h, coresOf]

theorem cores_comma {p : Text} (h : IsCommaFree p) (htop : (endState p).IsTopLevelAt ',')
    (b : Text) : cores (p ++ ',' :: b) = coresOf (marks p) ++ cores b := by
  rw [cores_eq, cores_eq, gists_comma h htop, List.map_append, coresOf]

end ElementModules.Script
