import ElementModules.Path

/-!
# Libraries

A library is a named set of element modules that share one directory.
-/

namespace ElementModules

/-- The extension of module files. -/
def moduleExtension : Text := "js"

/-- The file name of the module with an identifier. -/
def moduleFile (fileId : Text) : Text := fileId ++ '.' :: moduleExtension

/-- A named set of element modules. -/
structure Library where
  /-- The value of the `library` field of its descriptors. -/
  name : Text
  /-- The directory of its modules. -/
  dir : Path
  deriving DecidableEq, Repr

namespace Library

/-- The path of the module with an identifier. -/
def modulePath (l : Library) (fileId : Text) : Path :=
  l.dir.join ⟨moduleFile fileId⟩

/-- Where the file at a path goes when the library is flattened: it keeps its name. -/
def flattenedPath? (l : Library) (p : Path) : Option Path :=
  p.fileName?.map fun n => l.dir.join ⟨n⟩

/-- Whether a path lies directly in the library's directory. -/
def isFlat (l : Library) (p : Path) : Bool :=
  p.parent?.any fun d => d.same l.dir

/-- The name of the library to which the module at a path belongs: of the libraries with its
directory the last one, else the name of the directory. -/
def nameFor (libraries : List Library) (p : Path) : Text :=
  match p.parent? with
  | none => []
  | some dir =>
    match libraries.reverse.find? fun l => l.dir.same dir with
    | some l => l.name
    | none => dir.fileName?.getD []

end Library

end ElementModules
