import ElementModules.Path

/-!
# Layout plans

A layout plan says how the services of a project are arranged: which directories there are, which
files move, and which files are written if nothing stands in their place. All of its paths are
relative to the directory of the services.
-/

namespace ElementModules

/-- A planned move of a file. -/
structure Relocation where
  source : Path
  target : Path
  deriving DecidableEq, Repr

/-- A file that is written if nothing stands in its place. -/
structure Stub where
  path : Path
  body : Text
  deriving DecidableEq, Repr

/-- The stub that chooses between the parsers. -/
def projectParserStub : Stub where
  path := "code/parsers/parseProjectCode.js"
  body := Text.ofLines [
   "// Parsing orchestrator, dispatching on the project language.",
   "// Delegates to the language-specific parsers (TikZ, CircuitTikZ, ...).",
   "",
   "import \x7b parseTikz \x7d from './parseTikz'",
   "import \x7b parseCircuitikz \x7d from './parseCircuitikz'",
   "",
   "/**",
   " * Routes the code to the parser matching projectType.",
   " * Returns a list of elements ready for the store.",
   " */",
   "export function parseProjectCode(projectType, code) \x7b",
   "  if (projectType === 'circuitikz') \x7b",
   "    return parseCircuitikz(code)",
   "  \x7d",
   "  // default: plain TikZ",
   "  return parseTikz(code)",
   "\x7d"]

/-- The stub of the parser of plain drawings. -/
def drawingParserStub : Stub where
  path := "code/parsers/parseTikz.js"
  body := Text.ofLines [
   "// TikZ parser.",
   "// TODO: implement real parsing; returns no elements for now.",
   "",
   "export function parseTikz(code) \x7b",
   "  // Returns an array of elements in the store format:",
   "  // [\x7b type, x, y, ... \x7d]",
   "  return []",
   "\x7d"]

/-- The stub of the parser of circuits. -/
def circuitParserStub : Stub where
  path := "code/parsers/parseCircuitikz.js"
  body := Text.ofLines [
   "// CircuiTikZ parser.",
   "// TODO: implement real parsing; returns no elements for now.",
   "",
   "export function parseCircuitikz(code) \x7b",
   "  // Returns an array of CircuiTikZ elements in the store format.",
   "  return []",
   "\x7d"]

/-- How the services of a project are arranged. The default plan is the built-in one. -/
structure LayoutPlan where
  /-- The directory of the services. -/
  servicesRoot : Path := "src/services"
  /-- The directories that there must be. -/
  directories : List Path :=
    ["code", "code/parsers", "code/generators", "code/pretty", "elements"]
  /-- The moves, in order. -/
  relocations : List Relocation :=
    [⟨"code/codeParser.js", "code/codeParser.legacy.js"⟩,
     ⟨"code/codePrettyPrinter.js", "code/pretty/codePrettyPrinter.js"⟩,
     ⟨"code/generateProjectCode.js", "code/generators/generateProjectCode.js"⟩]
  /-- The files that are written if nothing stands in their place. -/
  stubs : List Stub := [projectParserStub, drawingParserStub, circuitParserStub]
  deriving DecidableEq, Repr

end ElementModules
