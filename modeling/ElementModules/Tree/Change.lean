import ElementModules.Order
import ElementModules.Tree.Basic

/-!
# Changes of a tree

What tells a tree from an earlier one, in the order of the paths: files with new content, new
directories, and addresses at which nothing stands any more.

Main statement: `changes_self`, a tree does not differ from itself.
-/

namespace ElementModules

/-- What became of an address. -/
inductive Change
  /-- A file is new or has a new content. -/
  | file (content : Content)
  /-- A directory is new. -/
  | dir
  /-- Nothing stands there any more. -/
  | removed
  deriving DecidableEq, Repr

/-- An address as a path with slashes. -/
def Address.text (a : Address) : Text :=
  Text.joinWith ['/'] a

namespace Tree

/-- What became of an address between two trees. -/
def changeAt? (before after : Tree) (a : Address) : Option Change :=
  if before.get? a = after.get? a then none
  else match after.get? a with
    | some (.file c) => some (.file c)
    | some .dir => some .dir
    | none => some .removed

/-- The changes between two trees in the order of the paths. -/
def changes (before after : Tree) : List (Address × Change) :=
  let gone := before.nodes.filter fun e => (after.get? e.1).isNone
  let addresses := (gone ++ after.nodes).map Prod.fst
  (addresses.filterMap fun a => (changeAt? before after a).map (a, ·)).mergeSort
    fun x y => Text.le x.1.text y.1.text

/-- A tree does not differ from itself. -/
theorem changes_self (t : Tree) : t.changes t = [] := by
  have h : ∀ as : List Address,
      (as.filterMap fun a => (changeAt? t t a).map (a, ·)) = [] := fun as => by
    rw [List.filterMap_eq_nil_iff]
    simp [changeAt?]
  simp only [changes, h, List.mergeSort_nil]

end Tree

end ElementModules
