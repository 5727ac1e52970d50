import ElementModules.Descriptor.Frame
import ElementModules.Descriptor.Indentation
import ElementModules.Script.Field
import ElementModules.Script.Identifier

/-!
# Synthesis of a module

A module in canonical form is made from whatever could be recovered of a descriptor. The fields that
the frame writes are taken out of the body, all others are kept and indented anew. Synthesis never
fails: without a body it writes a placeholder.
-/

namespace ElementModules.Descriptor

open Text Script

/-- The body of a module of which no literal could be recovered. -/
def placeholderNote : Text :=
  "  // No definition could be recovered from the original module.\n"
    ++ "  // Add defaults, propertySchema, svgRender, and codeGenerator.\n"

/-- What could be recovered of a descriptor. -/
structure Draft where
  /-- The identifier of the file. -/
  fileId : Text
  /-- The bound name, if there is one. -/
  identifier : Option Text := none
  /-- The text between the braces of the literal, if there is one. -/
  body : Option Text := none
  /-- Whether the binding was exported. -/
  exported : Bool := false
  library : Text
  category : Text
  /-- The label to use if the body has none. -/
  label : Option Text := none
  kept : KeptStatements := {}
  registry : Registry
  deriving DecidableEq, Repr

/-- Whether a field is one that the frame writes. -/
def isIdentityField (f : Field) : Bool :=
  f.kind = .property && f.key.any fun key => identityFieldKeys.contains key

/-- The text of a piece of a body with the comma that follows it. -/
def pieceText (p : List Mark × Bool) : Text :=
  chars p.1 ++ if p.2 then [','] else []

/-- The body without the fields that the frame writes. -/
def withoutIdentity (body : Text) : Text :=
  ((commaPieces (marks body)).filter fun p => !(fieldsOf 0 [p]).any isIdentityField).flatMap
    pieceText

/-- The contents of the first property `label`, if it is a plain string. -/
def authoredLabel? (body : Text) : Option Text :=
  let isLabel (f : Field) : Bool := f.kind = .property && f.key = some ("label" : Text)
  ((fields body).find? isLabel).bind Field.stringValue?

namespace Draft

/-- The name that the module binds. -/
def boundName (d : Draft) : Text :=
  d.identifier.getD (toIdentifier d.fileId)

/-- The label of the module: the one in the body, else the one given, else one made from the bound
name. -/
def resolvedLabel (d : Draft) : Text :=
  ((d.body.bind authoredLabel?).or d.label).getD (Script.label d.boundName)

/-- The frame of the module. -/
def frame (d : Draft) : Frame where
  identifier := d.boundName
  exported := d.exported
  library := d.library
  category := d.category
  label := d.resolvedLabel
  registry := d.registry

/-- The fields that are kept, or the placeholder. -/
def keptBody (d : Draft) : Text :=
  match d.body with
  | some body => indentBody (withoutIdentity body)
  | none => placeholderNote

/-- The module in canonical form. -/
def synthesize (d : Draft) : Text :=
  d.frame.render d.keptBody d.kept

end Draft

end ElementModules.Descriptor
