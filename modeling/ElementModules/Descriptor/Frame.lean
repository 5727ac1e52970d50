import ElementModules.Registry
import ElementModules.Text.Blank
import ElementModules.Text.Quoted

/-!
# The canonical form of an element module

Every module that is written has one frame: a header comment, the imports, the binding of the
descriptor, its exports, the registration and a diagnostic line.

    | /**
    |  * Resistor
    |  * Library: circuittikz | Category: bipole
    |  */
    | import { elementRegistry } from '../elementRegistry.js';
    |
    | const resistor = {
    |   type: 'resistor',
    |   library: 'circuittikz',
    |   category: 'bipole',
    |   label: 'Resistor',
    |   ...
    | };
    |
    | export const descriptor = resistor;
    | export default resistor;
    |
    | elementRegistry.register(resistor);
    | console.log('✔ [circuittikz] bipole/resistor');

The frame writes the four identity fields itself. Main statement: `render_eq`, a rendered module is
its preamble, its binding and its closing statements in this order.
-/

namespace ElementModules.Descriptor

open Text

/-- The name under which every module exports its descriptor. -/
def exportName : Text := "descriptor"

/-- The keys of the fields that the frame writes. -/
def identityFieldKeys : List Text := ["type", "library", "category", "label"]

/-- The markers that tell the diagnostic line of a registration from other log lines. -/
def logMarkers : List Text := ["✔ [", "✅", "registrado", "registered"]

/-- The values of `type` that name no particular element. -/
def unspecificTypes : List Text := ["elemento", "element", ""]

/-- What the frame needs beside the rest of the literal's body. -/
structure Frame where
  /-- The bound name, which is also the type of the element. -/
  identifier : Text
  /-- Whether the binding itself is exported. -/
  exported : Bool
  library : Text
  category : Text
  label : Text
  registry : Registry
  deriving DecidableEq, Repr

/-- Statements that are kept beside the literal. -/
structure KeptStatements where
  /-- Import declarations. -/
  imports : List Text := []
  /-- Statements in front of the binding. -/
  leading : Text := []
  /-- Statements after the binding. -/
  trailing : Text := []
  deriving DecidableEq, Repr

/-- Whether nothing is kept. -/
def KeptStatements.isEmpty (s : KeptStatements) : Bool :=
  s.imports.isEmpty && s.leading.isEmpty && s.trailing.isEmpty

/-- The call that registers a descriptor. -/
def registrationCall (receiver identifier : Text) : Text :=
  receiver ++ ".register(" ++ identifier ++ ");"

/-- The log line that follows a registration. -/
def diagnosticLine (library category typeName : Text) : Text :=
  let message : Text := "✔ [" ++ library ++ "] " ++ category ++ "/" ++ typeName
  "console.log(" ++ quote message ++ ");"

/-- The import of the registry. -/
def registryImport (r : Registry) : Text :=
  "import \x7b " ++ r.receiver ++ " \x7d from " ++ quote r.importPath ++ ";"

/-- Whether a log statement is the diagnostic line of a registration. -/
def isDiagnostic (t : Text) : Bool :=
  logMarkers.any fun marker => contains marker t

/-- Whether a value of `type` names no particular element. -/
def isUnspecificType (value : Text) : Bool :=
  unspecificTypes.contains (trim value)

/-- A text inside the header comment: it neither ends the comment nor the line. -/
def inHeader : Text → Text
  | [] => []
  | [c] => [if c = '\n' then ' ' else c]
  | c :: d :: t =>
    if c = '*' && d = '/' then '*' :: ' ' :: '/' :: inHeader t
    else (if c = '\n' then ' ' else c) :: inHeader (d :: t)

namespace Frame

/-- The header comment. -/
def header (f : Frame) : Text :=
  "/**\n * " ++ inHeader f.label ++ "\n * Library: " ++ inHeader f.library ++ " | Category: "
    ++ inHeader f.category ++ "\n */\n"

/-- Kept statements with a blank line after them. -/
def paragraph (t : Text) : Text :=
  if t.isEmpty then [] else t ++ ['\n', '\n']

/-- The statements in front of the binding. -/
def preamble (f : Frame) (s : KeptStatements) : Text :=
  f.header ++ registryImport f.registry ++ ['\n'] ++ s.imports.flatMap (· ++ ['\n']) ++ ['\n']
    ++ paragraph s.leading

/-- A line of the literal that defines an identity field. -/
def identityLine (key value : Text) : Text :=
  "  " ++ key ++ ": " ++ quote value ++ ",\n"

/-- The identity fields. -/
def identityLines (f : Frame) : Text :=
  identityLine "type" f.identifier ++ identityLine "library" f.library
    ++ identityLine "category" f.category ++ identityLine "label" f.label

/-- The binding of the descriptor. The name `descriptor` is always exported. -/
def binding (f : Frame) (body : Text) : Text :=
  let exportWord : Text := if f.exported || f.identifier = exportName then "export " else ""
  exportWord ++ "const " ++ f.identifier ++ " = \x7b\n" ++ f.identityLines ++ body
    ++ "\x7d;\n\n"

/-- The statements after the binding. -/
def closing (f : Frame) (s : KeptStatements) : Text :=
  let aliasLine : Text :=
    if f.identifier = exportName then ""
    else "export const " ++ exportName ++ " = " ++ f.identifier ++ ";\n"
  paragraph s.trailing ++ aliasLine ++ "export default " ++ f.identifier ++ ";\n\n"
    ++ registrationCall f.registry.receiver f.identifier ++ "\n"
    ++ diagnosticLine f.library f.category f.identifier ++ "\n"

/-- A module around `body`, which holds the remaining fields of the literal, each line indented and
ended by a line feed. -/
def render (f : Frame) (body : Text) (s : KeptStatements) : Text :=
  f.preamble s ++ f.binding body ++ f.closing s

/-- A module is its preamble, its binding and its closing statements. -/
theorem render_eq (f : Frame) (body : Text) (s : KeptStatements) :
    f.render body s = f.preamble s ++ f.binding body ++ f.closing s := rfl

end Frame

end ElementModules.Descriptor
