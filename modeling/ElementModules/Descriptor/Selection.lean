import ElementModules.Descriptor.Conversion

/-!
# Selection of element modules

The directory of a library also holds other scripts. A file is an element module if its identifier
has a category, or if its text exports `descriptor` or registers with the registry. Excluded
identifiers never are.
-/

namespace ElementModules.Descriptor

open Text Script

/-- Tells element modules from other scripts. -/
structure Selector where
  categories : CategoryMap
  receiver : Text
  /-- The identifiers of files that are never element modules. -/
  exclude : List Text := []
  deriving Repr

namespace Selector

/-- What the identifier alone decides. -/
def decidedBy? (s : Selector) (fileId : Text) : Option Bool :=
  if s.exclude.contains fileId then some false
  else if s.categories.contains fileId then some true
  else none

/-- Whether a text shows that it is an element module. -/
def accepts (s : Selector) (t : Text) : Bool :=
  exportsDescriptor t || (segments t).any fun seg => seg.kind = .registration s.receiver

/-- Whether a file with this identifier and this text is an element module. -/
def isElement (s : Selector) (fileId t : Text) : Bool :=
  (s.decidedBy? fileId).getD (s.accepts t)

end Selector

end ElementModules.Descriptor
