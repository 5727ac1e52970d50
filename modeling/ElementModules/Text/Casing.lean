import ElementModules.Text.Basic
import ElementModules.Text.Casing.Table

/-!
# Letter case

Upper case and lower case of single characters, by the full case mappings of Unicode: an image may
have several characters. Context plays no part, so a sigma has one lower-case form.

Main statements: on ASCII the mappings are those of `Char` (`upper_of_ascii`, `lower_of_ascii`).
-/

namespace ElementModules.Text

open Casing

/-- Whether a character has the Unicode property `Uppercase`. -/
def isUppercase (c : Char) : Bool :=
  if c.toNat < 0x80 then c.isUpper else uppercaseRuns.any fun r => r.covers c.toNat

/-- The image of a character under a mapping given by expansions and runs. -/
def mapCase (expansions : List (Nat × List Nat)) (runs : List (Run × Nat)) (c : Char) : Text :=
  match expansions.lookup c.toNat with
  | some image => image.map Char.ofNat
  | none => [((imageOf? runs c.toNat).map Char.ofNat).getD c]

/-- The upper-case form of a character. -/
def upper (c : Char) : Text :=
  if c.toNat < 0x80 then [c.toUpper] else mapCase upperExpansions upperRuns c

/-- The lower-case form of a character. -/
def lower (c : Char) : Text :=
  if c.toNat < 0x80 then [c.toLower] else mapCase lowerExpansions lowerRuns c

theorem upper_of_ascii {c : Char} (h : c.toNat < 0x80) : upper c = [c.toUpper] := by
  simp [upper, h]

theorem lower_of_ascii {c : Char} (h : c.toNat < 0x80) : lower c = [c.toLower] := by
  simp [lower, h]

end ElementModules.Text
