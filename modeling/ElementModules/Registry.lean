import ElementModules.Text.Basic

/-!
# Registry settings

How a module reaches the registry that element modules report to.
-/

namespace ElementModules

/-- The registry as modules see it. -/
structure Registry where
  /-- The object on which `register` is called. -/
  receiver : Text := "elementRegistry"
  /-- The specifier of the import that binds the receiver. -/
  importPath : Text := "../elementRegistry.js"
  /-- The name of the file that lists the modules of a library. -/
  indexFile : Text := "index.js"
  deriving DecidableEq, Repr

end ElementModules
