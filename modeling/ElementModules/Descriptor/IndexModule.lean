import ElementModules.Order

/-!
# Index modules

The index module of a library imports every element module in it. Its text depends only on the set
of file names: they are sorted by their characters, and each is imported once.
-/

namespace ElementModules.Descriptor

/-- The list without elements that equal their predecessor. -/
def dedupAdjacent : List Text → List Text
  | [] => []
  | [a] => [a]
  | a :: b :: rest => if a = b then dedupAdjacent (b :: rest) else a :: dedupAdjacent (b :: rest)

/-- The names in ascending order, each once. -/
def sortedNames (names : List Text) : List Text :=
  dedupAdjacent (names.mergeSort Text.le)

/-- The import of one module. -/
def indexLine (name : Text) : Text :=
  "import './" ++ name ++ "';\n"

/-- The index module of a library with the given module files. -/
def indexModule (library : Text) (names : List Text) : Text :=
  "/**\n * " ++ library ++ " element index\n * Generated by tk-migrate; do not edit.\n */\n"
    ++ (sortedNames names).flatMap indexLine

end ElementModules.Descriptor
