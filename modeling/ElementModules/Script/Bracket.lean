import ElementModules.Script.Scanner
import ElementModules.Text.Blank

/-!
# Brackets, stretches and searches in scanned text

Questions about a scanned text, asked by byte offset: what covers an offset, where a bracket closes,
whether a stretch holds only comments, and where a text occurs in code.

The closing bracket of an opener of depth `d` is the first closing bracket in code of depth `d + 1`
after it. Main statement: `fromOffset_eq`, cutting at the size of a first part leaves the second.
-/

namespace ElementModules.Script

/-- The marks from the one that covers a byte offset. -/
def fromOffset : Nat → List Mark → List Mark
  | _, [] => []
  | offset, m :: ms => if offset < m.size then m :: ms else fromOffset (offset - m.size) ms

/-- Cutting at the size of a first part leaves what follows it. -/
theorem fromOffset_eq (a b : List Mark) : fromOffset (sizeOf a) (a ++ b) = b := by
  induction a with
  | nil =>
    cases b with
    | nil => rfl
    | cons m b =>
      have : 0 < m.size := m.char.utf8Size_pos
      simp [fromOffset, sizeOf, chars, this]
  | cons m a ih =>
    have hs : sizeOf (m :: a) = m.size + sizeOf a := by simp [sizeOf, chars, Mark.size]
    have hn : ¬ m.size + sizeOf a < m.size := by omega
    simp [fromOffset, hs, hn, ih]

/-- The mark that covers a byte offset. -/
def markAt? (offset : Nat) (ms : List Mark) : Option Mark :=
  (fromOffset offset ms).head?

/-- The layer of a byte offset, if it is inside the text. -/
def layerAt? (t : Text) (offset : Nat) : Option Layer :=
  (markAt? offset (marks t)).map Mark.layer

/-- The depth before a byte offset; past the end it is the depth of the end. -/
def depthBefore (t : Text) (offset : Nat) : Nat :=
  ((markAt? offset (marks t)).map Mark.depth).getD (endDepth t)

/-- The marks whose bytes meet a range of offsets. -/
def within (range : Span) : List Mark → List Mark :=
  go 0
where
  go (offset : Nat) : List Mark → List Mark
    | [] => []
    | m :: ms =>
      let rest := go (offset + m.size) ms
      if range.start < range.stop && offset < range.stop && range.start < offset + m.size then
        m :: rest
      else rest

/-- The number of marks before the bracket that closes an enclosure whose inside has depth `inner`. -/
def closeIndex? (inner : Nat) (ms : List Mark) : Option Nat :=
  ms.findIdx? fun m => isCloser m.char && m.isCode && m.depth = inner

/-- For marks that begin with an opening bracket in code: the number of marks before the bracket
that closes it. -/
def closeAfter? : List Mark → Option Nat
  | [] => none
  | m :: ms =>
    if isOpener m.char && m.isCode then (closeIndex? (m.depth + 1) ms).map (· + 1) else none

/-- The offset of the bracket that closes the one at `offset`. -/
def closeOffset? (ms : List Mark) (offset : Nat) : Option Nat :=
  let rest := fromOffset offset ms
  (closeAfter? rest).map fun k => offset + sizeOf (rest.take k)

/-- Whether a stretch holds comments and, apart from ASCII blanks, nothing else. -/
def holdsOnlyComments (ms : List Mark) : Bool :=
  let solid := ms.filter fun m => !Text.isAsciiBlank m.char
  !solid.isEmpty && solid.all fun m => m.layer = .comment

/-- The occurrences of a text in a stretch that do not overlap, leftmost first: the offset of each
and its first mark. `offset` is that of the stretch, `skip` the number of marks that still belong to
the last occurrence. An empty text occurs at every mark. -/
def occurrencesFrom (needle : Text) : Nat → Nat → List Mark → List (Nat × Mark)
  | _, _, [] => []
  | offset, skip + 1, m :: ms => occurrencesFrom needle (offset + m.size) skip ms
  | offset, 0, m :: ms =>
    if needle.isPrefixOf (chars (m :: ms)) then
      (offset, m) :: occurrencesFrom needle (offset + m.size) (needle.length - 1) ms
    else occurrencesFrom needle (offset + m.size) 0 ms

/-- The offsets where a text occurs in a range, its first character being code. An empty text also
occurs at the end of the range, before the character that follows it. -/
def codeOccurrences (needle : Text) (range : Span) (ms : List Mark) : List Nat :=
  let stop := min range.stop (sizeOf ms)
  let start := min range.start stop
  let found := occurrencesFrom needle start 0 (within ⟨start, stop⟩ ms)
  let atStop := if needle.isEmpty then (markAt? stop ms).toList.map fun m => (stop, m) else []
  ((found ++ atStop).filter fun o => o.2.isCode).map Prod.fst

/-- The offsets where a text occurs, its first character being code outside every bracket. -/
def topLevelOccurrences (needle : Text) (ms : List Mark) : List Nat :=
  ((occurrencesFrom needle 0 0 ms).filter fun o => o.2.isTopLevel).map Prod.fst

end ElementModules.Script
