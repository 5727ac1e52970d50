import ElementModules.Descriptor.Conversion

/-!
# Repair of registrations

A module is changed so that it calls `register` once on the registry, for the name that its first
object literal is bound to, with a diagnostic line after the call, and imports the registry. All
other statements stay in place; runs of blank lines shrink to one.
-/

namespace ElementModules.Descriptor

open Text Script

/-- Why a module cannot be repaired. -/
inductive RepairError
  /-- No object literal is bound at the top level. -/
  | noDeclaredIdentifier
  /-- The brackets of the first literal never balance. -/
  | unbalancedLiteral (identifier : Text)
  deriving DecidableEq, Repr

/-- The error in words. -/
def RepairError.message : RepairError → Text
  | .noDeclaredIdentifier =>
    "no declared identifier: the module binds no top-level object literal"
  | .unbalancedLiteral identifier =>
    "object literal '" ++ identifier ++ "' has unbalanced brackets"

/-- Whether a segment registers with `receiver`. -/
def isRegistrationOn (receiver : Text) (s : Segment) : Bool :=
  s.kind = .registration receiver

/-- Whether a segment gives way to the canonical statements. -/
def isSuperseded (receiver : Text) (s : Segment) : Bool :=
  isRegistrationOn receiver s || (s.kind = .log && isDiagnostic s.text)

/-- Whether a segment exports a default or the descriptor under another name. -/
def isExport (s : Segment) : Bool :=
  match s.kind with
  | .exportDefault | .descriptorAlias _ => true
  | _ => false

/-- The index of the last element with a property. -/
def lastIndex? {α : Type} (p : α → Bool) (xs : List α) : Option Nat :=
  (xs.reverse.findIdx? p).map fun k => xs.length - 1 - k

/-- The index of the segment that holds a byte offset. -/
def segmentAt (offset : Nat) (segs : List Segment) : Nat :=
  (segs.findIdx? fun s => s.span.start ≤ offset && offset < s.span.stop).getD 0

/-- The index of the segment at which the call is written: the first registration after the binding,
else the last export, but not before the binding. -/
def anchorIndex (receiver : Text) (binding : Nat) (segs : List Segment) : Nat :=
  match (segs.drop (binding + 1)).findIdx? (isRegistrationOn receiver) with
  | some k => binding + 1 + k
  | none => max ((lastIndex? isExport segs).getD binding) binding

/-- The index of the segment before which the import is written, if no import mentions the
registry: the first that is neither blank nor a comment. -/
def importIndex? (receiver : Text) (segs : List Segment) : Option Nat :=
  if segs.any fun s => s.kind = .importDecl && s.mentions receiver then none
  else segs.findIdx? fun s => !(s.kind = .blank || s.kind = .comment)

/-- The text with its last line ended. -/
def withLineEnd (out : Text) : Text :=
  if out.isEmpty || out.getLast? = some '\n' then out else out ++ ['\n']

/-- The text with a blank line at its end. -/
def withBlankLine (out : Text) : Text :=
  if out.isEmpty || ['\n', '\n'].isSuffixOf out then out else out ++ ['\n']

/-- The text with at most one line feed at its end. -/
def withoutBlankEnd (out : Text) : Text :=
  let body := (out.reverse.dropWhile (· = '\n')).reverse
  if body.length < out.length then body ++ ['\n'] else out

/-- What a repair writes and where. -/
structure RepairPlan where
  registry : Registry
  /-- The call and the diagnostic line. -/
  canonical : Text
  /-- The index of the segment at which the call is written. -/
  anchor : Nat
  /-- The index of the segment before which the import is written. -/
  importAt : Option Nat
  deriving Repr

namespace RepairPlan

/-- Writes the import in front of a segment, if it belongs there. -/
def writeImport (p : RepairPlan) (out : Text) (s : Segment) (index : Nat) : Text :=
  if p.importAt = some index then
    out ++ registryImport p.registry ++ "\n" ++ if s.kind = .importDecl then [] else ['\n']
  else out

/-- Writes a segment. -/
def writeSegment (p : RepairPlan) (out : Text) (s : Segment) (index : Nat) : Text :=
  let dropped := isSuperseded p.registry.receiver s
  if index = p.anchor then
    withLineEnd (if dropped then out else withBlankLine (withLineEnd (out ++ s.text))) ++ p.canonical
  else if dropped then (if s.endsLine then withLineEnd out else out)
  else if s.kind = .blank then withBlankLine out
  else out ++ s.text

/-- Writes a segment with the import that may precede it. -/
def write (p : RepairPlan) (out : Text) (s : Segment × Nat) : Text :=
  p.writeSegment (p.writeImport out s.1 s.2) s.1 s.2

/-- The repaired text. -/
def apply (p : RepairPlan) (segs : List Segment) : Text :=
  withoutBlankEnd (withLineEnd (segs.zipIdx.foldl p.write []))

end RepairPlan

/-- The call and the diagnostic line for a literal. Library, category and type are those of its own
fields, where these are plain strings and the type is not generic. -/
def canonicalStatements (c : Context) (l : ObjectLiteral) : Text :=
  let library := (l.stringField? "library").getD c.library
  let category := (l.stringField? "category").getD c.category
  let typeName := ((l.stringField? "type").filter fun v => !isUnspecificType v).getD l.identifier
  registrationCall c.registry.receiver l.identifier ++ "\n"
    ++ diagnosticLine library category typeName ++ "\n"

/-- The plan for a module with the segments `segs` and the first literal `l`. -/
def repairPlan (c : Context) (l : ObjectLiteral) (segs : List Segment) : RepairPlan where
  registry := c.registry
  canonical := canonicalStatements c l
  anchor := anchorIndex c.registry.receiver (segmentAt l.statement.start segs) segs
  importAt := importIndex? c.registry.receiver segs

/-- The module with one registration of its first literal. -/
def repair (c : Context) (t : Text) : Except RepairError Text :=
  match firstLiteral? t with
  | none => .error .noDeclaredIdentifier
  | some l =>
    match l.closing with
    | .heuristic => .error (.unbalancedLiteral l.identifier)
    | .balanced =>
      let segs := segments t
      .ok ((repairPlan c l segs).apply segs)

end ElementModules.Descriptor
