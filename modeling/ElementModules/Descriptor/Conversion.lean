import ElementModules.Category
import ElementModules.Descriptor.Synthesis
import ElementModules.Script.Literal
import ElementModules.Script.Segment

/-!
# Conversion of a module

A module that exports no `descriptor` is brought into canonical form. Its first object literal gives
the bound name and the body. Other imports and statements are kept; registrations, diagnostic lines,
default exports and aliases of the descriptor are replaced by those of the frame.
-/

namespace ElementModules.Descriptor

open Text Script

/-- Where a module lives and how it is wired. -/
structure Context where
  library : Text
  /-- The identifier of the file. -/
  fileId : Text
  categories : CategoryMap
  registry : Registry
  deriving Repr

/-- The category that the map assigns to the file. -/
def Context.category (c : Context) : Text := c.categories.categoryOf c.fileId

/-- What a conversion made of a module that was not in canonical form. -/
inductive Conversion
  /-- The literal was taken over. -/
  | converted
  /-- No literal could be used, and a placeholder stands in. -/
  | placeholder
  deriving DecidableEq, Repr

/-- The body of a literal, if it can stand between braces again. A literal without a closing brace
is usable if its body balances as it is or without a brace at its end. -/
def closedBody? (l : ObjectLiteral) : Option Text :=
  match l.closing with
  | .balanced => some l.body
  | .heuristic =>
    let withoutClose := dropTrailing? ['\x7d'] (trimEnd (dropTrailing [';'] (trimEnd l.body)))
    (some l.body :: [withoutClose]).findSome? fun body => body.filter isBalanced

/-- Whether a segment is replaced by statements of the frame. -/
def frameStandsFor (receiver : Text) (s : Segment) : Bool :=
  match s.kind with
  | .registration r => r = receiver
  | .log => isDiagnostic s.text
  | .exportDefault | .descriptorAlias _ => true
  | _ => false

/-- What has been kept of the segments read so far, the last piece first. -/
structure Gathering where
  imports : List Text := []
  leading : List Text := []
  trailing : List Text := []
  /-- Whether a segment other than a blank or a comment has been read. -/
  seenCode : Bool := false
  /-- Whether the binding has been read. -/
  pastBinding : Bool := false
  /-- Whether a blank segment has been read since the last piece. -/
  gap : Bool := false
  /-- Whether the next segment starts a line. -/
  startsLine : Bool := true
  deriving Repr

namespace Gathering

/-- The text of a segment without blanks at its end; those in front are kept if it starts a line. -/
def piece (g : Gathering) (s : Segment) : Text :=
  if g.startsLine then trimEnd s.text else trim s.text

/-- Adds a piece behind others, after an empty piece if there is a gap. -/
def addPiece (gap : Bool) (piece : Text) (pieces : List Text) : List Text :=
  if gap && !pieces.isEmpty then piece :: [] :: pieces else piece :: pieces

/-- Keeps a statement on its side of the binding. -/
def keep (g : Gathering) (s : Segment) : Gathering :=
  let text := g.piece s
  if g.pastBinding then { g with trailing := addPiece g.gap text g.trailing, gap := false }
  else { g with leading := addPiece g.gap text g.leading, gap := false }

/-- Reads one segment, where `statement` is the range of the binding. -/
def read (receiver : Text) (statement : Option Span) (g : Gathering) (s : Segment) : Gathering :=
  let g' :=
    if statement.any fun range => range.overlaps s.span then
      { g with pastBinding := true, gap := false }
    else match s.kind with
      | .blank => { g with gap := true }
      | .importDecl =>
        let g := { g with seenCode := true }
        if s.mentions receiver then g else { g with imports := g.piece s :: g.imports }
      | .comment => if g.seenCode then g.keep s else g
      | _ =>
        let g := { g with seenCode := true }
        if frameStandsFor receiver s then g else g.keep s
  { g' with startsLine := s.endsLine }

/-- The statements that are kept. -/
def kept (g : Gathering) : KeptStatements where
  imports := g.imports.reverse
  leading := joinWith ['\n'] g.leading.reverse
  trailing := joinWith ['\n'] g.trailing.reverse

end Gathering

/-- The statements of a module that are kept beside its literal. -/
def gatherKept (receiver : Text) (statement : Option Span) (segs : List Segment) : KeptStatements :=
  (segs.foldl (Gathering.read receiver statement) {}).kept

/-- What a conversion starts from. -/
def draftOf (c : Context) (t : Text) : Draft × Conversion :=
  let literal := firstLiteral? t
  let draft : Draft :=
    { fileId := c.fileId, library := c.library, category := c.category, registry := c.registry
      label := literal.map fun l => Script.label l.identifier
      kept := gatherKept c.registry.receiver (literal.map ObjectLiteral.statement) (segments t) }
  match literal with
  | none => (draft, .placeholder)
  | some l =>
    match closedBody? l with
    | some body =>
      ({ draft with identifier := some l.identifier, body := some body, exported := l.exported },
        .converted)
    | none => ({ draft with identifier := some l.identifier }, .placeholder)

/-- The module in canonical form, or `none` if it exports a descriptor already. -/
def convert? (c : Context) (t : Text) : Option (Text × Conversion) :=
  if exportsDescriptor t then none
  else
    let (draft, conversion) := draftOf c t
    some (draft.synthesize, conversion)

end ElementModules.Descriptor
