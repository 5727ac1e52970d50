import ElementModules.Keyed

/-!
# Categories

The editor groups elements by category. A category map assigns one to a file identifier; identifiers
that are not in the map get the fallback. Main statement: `categoryOf_insert`, inserting a pair
changes the answer for that identifier alone.
-/

namespace ElementModules

/-- The categories of file identifiers. -/
structure CategoryMap where
  /-- The identifiers with their categories. -/
  entries : List (Text × Text)
  /-- The category of all other identifiers. -/
  fallback : Text
  /-- An identifier has at most one category. -/
  distinct : Keyed.Distinct entries
  deriving DecidableEq, Repr

namespace CategoryMap

/-- A map without entries. -/
def empty (fallback : Text) : CategoryMap := ⟨[], fallback, List.nodup_nil⟩

/-- The map with the given pairs; of two pairs for an identifier the last one counts. -/
def ofPairs (pairs : List (Text × Text)) (fallback : Text) : CategoryMap :=
  ⟨Keyed.settle pairs, fallback, Keyed.distinct_settle pairs⟩

/-- Assigns a category to an identifier. -/
def insert (m : CategoryMap) (id category : Text) : CategoryMap :=
  ⟨Keyed.put id category m.entries, m.fallback, Keyed.distinct_put m.distinct⟩

/-- The category of an identifier. -/
def categoryOf (m : CategoryMap) (id : Text) : Text :=
  (m.entries.lookup id).getD m.fallback

/-- Whether the map has an entry for an identifier. -/
def contains (m : CategoryMap) (id : Text) : Bool :=
  (m.entries.lookup id).isSome

/-- The number of entries. -/
def size (m : CategoryMap) : Nat := m.entries.length

/-- The identifiers of each built-in category. -/
def builtinGroups : List (String × List String) :=
  [("shapes", ["circle", "ellipse", "line", "node", "rectangle"]),
   ("bipoles",
    ["ammeter", "capacitor", "capacitor_polar", "diode", "euroresistor", "fuse", "inductor", "npn",
     "pnj", "potentiometer", "relay_spdt", "resistor", "switch_closed", "thermistor", "usresistor",
     "zener"]),
   ("sources", ["isource", "vsource"]),
   ("symbols", ["ground", "opamp"])]

/-- The built-in map. -/
def builtin : CategoryMap where
  entries := builtinGroups.flatMap fun g => g.2.map fun id => (id.toList, g.1.toList)
  fallback := "other"
  distinct := by decide +kernel

instance : Inhabited CategoryMap := ⟨builtin⟩

/-- Inserting a pair changes the category of that identifier alone. -/
theorem categoryOf_insert (m : CategoryMap) (id category other : Text) :
    (m.insert id category).categoryOf other
      = if other = id then category else m.categoryOf other := by
  unfold categoryOf insert
  simp only [Keyed.lookup_put, beq_iff_eq]
  split <;> rfl

end CategoryMap

end ElementModules
