import ElementModules.Descriptor.Procedure
import ElementModules.ElementTable
import ElementModules.Failure
import ElementModules.Library

/-!
# Generation of modules

A table of elements gives one module in canonical form for every element whose name can be bound.
Main statement: `generate_isSome_iff`.
-/

namespace ElementModules.Descriptor

open Text Script

/-- A module that was generated. -/
structure ElementModule where
  /-- The bound name, which is the name of the element. -/
  identifier : Text
  /-- The name of its file. -/
  fileName : Text
  text : Text
  deriving DecidableEq, Repr

/-- A text whose lines after the first one are moved to the right by two characters. -/
def indentLines (t : Text) : Text :=
  t.flatMap fun c => if c = '\n' then ['\n', ' ', ' '] else [c]

/-- The default values as a field of the literal. -/
def defaultsField (defaults : List (Text × Json)) : Text :=
  "  defaults: " ++ indentLines (Json.pretty (.object defaults)) ++ ",\n"

/-- The body of the literal of a generated module, without the fields that the frame writes. -/
def generatedBody (library name : Text) (row : ElementRow) : Text :=
  let id : Text := library ++ ":" ++ name
  "  id: " ++ quote id ++ ",\n  icon: " ++ quote row.icon ++ ",\n" ++ defaultsField row.defaults
    ++ editingFields ++ (Drawing.ofName name).procedure row.icon
    ++ circuitProcedure row.drawingTag

/-- The label of a generated module: the one in the table, unless it is blank. -/
def generatedLabel (name : Text) (row : ElementRow) : Text :=
  if isBlankText row.label then Script.label name else row.label

/-- The module of one element. -/
def generate (table : ElementTable) (registry : Registry) (name : Text) (row : ElementRow) :
    Except Failure ElementModule :=
  if isIdentifier name then
    let frame : Frame :=
      { identifier := name, exported := false, library := table.library
        category := table.category, label := generatedLabel name row, registry }
    .ok { identifier := name, fileName := moduleFile name
          text := frame.render (generatedBody table.library name row) {} }
  else .error (.invalidIdentifier name)

/-- The modules of a table. Elements whose name cannot be bound are left out. -/
def generateAll (table : ElementTable) (registry : Registry) : List ElementModule :=
  table.entries.filterMap fun e => (generate table registry e.1 e.2).toOption

/-- An element has a module if its name can be bound. -/
theorem generate_isSome_iff (table : ElementTable) (registry : Registry) (name : Text)
    (row : ElementRow) :
    (generate table registry name row).toOption.isSome ↔ isIdentifier name := by
  unfold generate
  split <;> simp_all [Except.toOption]

end ElementModules.Descriptor
