import ElementModules.Config.Check
import ElementModules.Json.Printer
import ElementModules.Json.Shape

/-!
# Tables of elements

A table describes elements from which modules are generated, in order. The default values of an
element are kept as JSON, because they are written into its module as they are.

Main statement: `ElementTable.parse_eq_error_iff`, the only way in which a table cannot be read
from a text is that the text is not of its form.
-/

namespace ElementModules

/-- What a table says about one element. -/
structure ElementRow where
  label : Text
  /-- The sign of the element in a palette. -/
  icon : Text := []
  /-- The tag with which a circuit drawing names the element. -/
  drawingTag : Text
  /-- The default values of the element's fields. -/
  defaults : List (Text × Json) := []
  deriving Repr

/-- Elements by their names, in order. -/
structure ElementTable where
  /-- The library of all elements. -/
  library : Text := "circuittikz"
  /-- The category of all elements. -/
  category : Text := "bipole"
  /-- The elements; each name occurs once. -/
  entries : List (Text × ElementRow) := []
  /-- A name stands for one element. -/
  distinct : Keyed.Distinct entries := by exact List.nodup_nil
  deriving Repr

namespace ElementRow

/-- The keys of an element in order. -/
def keys : List Text := ["label", "icon", "tikz", "defaults"]

/-- How many arrays and objects may enclose each other in a default value of a table. -/
def greatestNesting : Nat := Json.greatestNesting - 4

/-- An element as JSON. -/
def toJson (s : ElementRow) : Json :=
  .object [("label", .string s.label), ("icon", .string s.icon), ("tikz", .string s.drawingTag),
    ("defaults", .object s.defaults)]

/-- The element that a JSON value holds. -/
def ofJson? (v : Json) : Option ElementRow := do
  let fields ← v.asRecord? keys
  let label ← Json.required? fields "label" Json.asText?
  let icon ← Json.optional? fields "icon" Json.asText? []
  let drawingTag ← Json.required? fields "tikz" Json.asText?
  let defaults ←
    Json.optional? fields "defaults" (Json.asMap? (Json.settle? greatestNesting)) []
  return { label, icon, drawingTag, defaults }

end ElementRow

namespace ElementTable

/-- The table with the given elements; of two elements with one name the last one counts. -/
def ofPairs (library category : Text) (pairs : List (Text × ElementRow)) : ElementTable :=
  ⟨library, category, Keyed.settle pairs, Keyed.distinct_settle pairs⟩

/-- The names of the elements in order. -/
def names (t : ElementTable) : List Text :=
  t.entries.map Prod.fst

/-- The element with a name. -/
def find? (t : ElementTable) (name : Text) : Option ElementRow :=
  t.entries.lookup name

/-- The keys of a table in order. -/
def keys : List Text := ["library", "category", "entries"]

/-- A table as JSON. -/
def toJson (t : ElementTable) : Json :=
  .object [("library", .string t.library), ("category", .string t.category),
    ("entries", .object (t.entries.map fun e => (e.1, e.2.toJson)))]

/-- The table that a JSON value holds. -/
def ofJson? (v : Json) : Option ElementTable := do
  let fields ← v.asRecord? keys
  let default : ElementTable := {}
  let library ← Json.optional? fields "library" Json.asText? default.library
  let category ← Json.optional? fields "category" Json.asText? default.category
  let entries ← Json.optional? fields "entries" (Json.asMap? ElementRow.ofJson?) default.entries
  return ofPairs library category entries

/-- The table that a JSON text holds. -/
def parse (t : Text) : Except ConfigError ElementTable :=
  match (Json.parse? t).bind ofJson? with
  | none => .error .malformed
  | some table => .ok table

/-- Name, label, icon, drawing tag and default value of the built-in elements. -/
def builtinRows : List (String × String × String × String × String) :=
  [("resistor", "Resistor", "▭", "R", "1k"),
   ("euroresistor", "European Resistor", "▭", "european resistor", "1k"),
   ("usresistor", "American Resistor", "⏛", "american resistor", "1k"),
   ("potentiometer", "Potentiometer", "↗", "pR", "10k"),
   ("thermistor", "Thermistor", "θ", "thR", "10k"),
   ("fuse", "Fuse", "⊟", "fuse", "1A"),
   ("capacitor", "Capacitor", "∥", "C", "100nF"),
   ("capacitor_polar", "Polarized Capacitor", "±", "eC", "10uF"),
   ("inductor", "Inductor", "∿", "L", "1mH"),
   ("diode", "Diode", "▶", "D", ""),
   ("zener", "Zener Diode", "⊳", "zD", ""),
   ("led", "LED", "✦", "leD", ""),
   ("photodiode", "Photodiode", "☼", "pD", ""),
   ("schottky", "Schottky Diode", "▸", "sD", ""),
   ("vsource", "Voltage Source", "⊕", "V", "5V"),
   ("isource", "Current Source", "⊙", "I", "1mA"),
   ("battery", "Battery", "🔋", "battery1", "9V"),
   ("ammeter", "Ammeter", "Ⓐ", "ammeter", ""),
   ("voltmeter", "Voltmeter", "Ⓥ", "voltmeter", ""),
   ("lamp", "Lamp", "💡", "lamp", ""),
   ("switch_open", "Open Switch", "⌿", "nos", ""),
   ("switch_closed", "Closed Switch", "—", "ncs", ""),
   ("crystal", "Crystal", "◫", "piezoelectric", "16MHz")]

/-- The default values of a built-in element: it lies between (0, 0) and (2, 0). -/
def builtinDefaults (value : Text) : List (Text × Json) :=
  [("x1", .number (.integer 0)), ("y1", .number (.integer 0)), ("x2", .number (.integer 2)),
    ("y2", .number (.integer 0)), ("value", .string value), ("label", .string [])]

/-- The built-in table: circuit elements with two ends. -/
def builtin : ElementTable where
  entries := builtinRows.map fun (name, label, icon, tag, value) =>
    (name.toList, { label, icon, drawingTag := tag, defaults := builtinDefaults value })
  distinct := by decide +kernel

/-- The only way in which a table cannot be read from a text is that the text is not of its form. -/
theorem parse_eq_error_iff {t : Text} {e : ConfigError} :
    parse t = .error e ↔ e = .malformed ∧ (Json.parse? t).bind ofJson? = none := by
  unfold parse
  cases (Json.parse? t).bind ofJson? <;> simp [eq_comm]

end ElementTable

end ElementModules
