import ElementModules.Text.Basic

/-!
# Globs

A glob describes paths, byte by byte. A question mark stands for one byte and a star for any number
of them, but neither for a slash; two stars between slashes stand for any number of directories.
Brackets list bytes, braces list alternatives, and a backslash takes the next character as it is.

Main statement: `Glob.mem_rests_append`, the rests after two globs in a row.
-/

namespace ElementModules

/-- The bytes of a text in UTF-8. -/
def Text.utf8 (t : Text) : List UInt8 :=
  t.flatMap String.utf8EncodeChar

namespace Glob

/-- The byte of a slash. -/
def slash : UInt8 := 47

/-- A part of a glob. -/
inductive Token
  | byte (b : UInt8)
  /-- One byte that is no slash. -/
  | any
  /-- Any number of bytes that are no slashes. -/
  | star
  /-- Any number of directories, each with the slash after it. -/
  | directories
  /-- A slash and all that follows. -/
  | everythingBelow
  /-- A slash, any number of directories, each with the slash after it. -/
  | between
  /-- One byte in or, if negated, outside of some ranges. -/
  | oneOf (negated : Bool) (ranges : List (UInt8 × UInt8))
  | alternatives (branches : List (List Token))
  deriving Repr

/-- The parts of a text after each of its slashes. -/
def afterSlashes : List UInt8 → List (List UInt8)
  | [] => []
  | b :: s => if b = slash then s :: afterSlashes s else afterSlashes s

/-- What is left of a text after any number of bytes that are no slashes. -/
def withinName : List UInt8 → List (List UInt8)
  | [] => [[]]
  | b :: s => (b :: s) :: if b = slash then [] else withinName s

/-- What is left of a text after any number of bytes. -/
def suffixes : List UInt8 → List (List UInt8)
  | [] => [[]]
  | b :: s => (b :: s) :: suffixes s

mutual

/-- Whether some tokens describe nothing but the empty text, because they list no alternatives. -/
def isBlank : List Token → Bool
  | [] => true
  | .alternatives branches :: ts => areBlank branches && isBlank ts
  | _ :: _ => false

/-- Whether all branches are blank. -/
def areBlank : List (List Token) → Bool
  | [] => true
  | b :: bs => isBlank b && areBlank bs

end

mutual

/-- What may be left of a text after a token. -/
def tokenRests : Token → List UInt8 → List (List UInt8)
  | .byte b, c :: s => if b = c then [s] else []
  | .any, c :: s => if c = slash then [] else [s]
  | .star, s => withinName s
  | .directories, s => s :: afterSlashes s
  | .everythingBelow, c :: s => if c = slash then suffixes s else []
  | .between, c :: s => if c = slash then s :: afterSlashes s else []
  | .oneOf negated ranges, c :: s =>
    if (ranges.any fun r => r.1 ≤ c && c ≤ r.2) != negated then [s] else []
  | .alternatives branches, s => if areBlank branches then [s] else branchRests branches s
  | _, [] => []

/-- What may be left of a text after some tokens. -/
def rests : List Token → List UInt8 → List (List UInt8)
  | [], s => [s]
  | t :: ts, s => ((tokenRests t s).eraseDups.flatMap fun r => rests ts r)

/-- What may be left of a text after one of some branches that are not blank. -/
def branchRests : List (List Token) → List UInt8 → List (List UInt8)
  | [], _ => []
  | b :: bs, s => (if isBlank b then [] else rests b s) ++ branchRests bs s

end

/-- Whether a glob describes a text. Two stars alone describe every text. -/
def matchesText (glob : List Token) (t : Text) : Bool :=
  match glob with
  | [.directories] => true
  | _ => (rests glob t.utf8).contains []

/-- After two globs in a row there may be left what may be left by the second of what the first
leaves. -/
theorem mem_rests_append {g h : List Token} {s r : List UInt8} :
    r ∈ rests (g ++ h) s ↔ ∃ m ∈ rests g s, r ∈ rests h m := by
  induction g generalizing s with
  | nil => simp [rests]
  | cons t g ih =>
    simp only [List.cons_append, rests, List.mem_flatMap, ih]
    constructor
    · rintro ⟨a, ha, m, hm, hr⟩
      exact ⟨m, ⟨a, ha, hm⟩, hr⟩
    · rintro ⟨m, ⟨a, ha, hm⟩, hr⟩
      exact ⟨a, ha, m, hm, hr⟩

/-! ### Reading globs -/

/-- The bytes of a character as ranges of one byte each. -/
def single (c : Char) : List (UInt8 × UInt8) :=
  (String.utf8EncodeChar c).map fun b => (b, b)

/-- The ranges of bytes that a range of characters stands for: the last byte of the first character
and the first byte of the last one bound a range, all other bytes stand for themselves. -/
def byteRanges (r : Char × Char) : List (UInt8 × UInt8) :=
  if r.1 = r.2 then single r.1
  else
    let first := String.utf8EncodeChar r.1
    let last := String.utf8EncodeChar r.2
    first.dropLast.map (fun b => (b, b)) ++ [(first.getLastD 0, last.headD 0)]
      ++ last.tail.map fun b => (b, b)

/-- What stands between brackets. -/
inductive Brackets
  /-- There is no closing bracket. -/
  | unclosed
  /-- A range ends before it starts. -/
  | invalid
  | closed (ranges : List (Char × Char)) (rest : Text)

/-- Reads the ranges up to the closing bracket. A closing bracket or a hyphen at the start and a
hyphen at the end stand for themselves. -/
def readBrackets (ranges : List (Char × Char)) (first open_ : Bool) : Text → Brackets
  | [] => .unclosed
  | c :: t =>
    if c = ']' && !first then .closed (if open_ then ranges ++ [('-', '-')] else ranges) t
    else if c = '-' && !first && !open_ then readBrackets ranges false true t
    else if open_ then
      match ranges.getLast? with
      | some (a, _) =>
        if c < a then .invalid else readBrackets (ranges.dropLast ++ [(a, c)]) false false t
      | none => .invalid
    else readBrackets (ranges ++ [(c, c)]) false false t

/-- The alternatives of an open brace: those that are finished and the one being read. -/
structure Group where
  finished : List (List Token) := []
  current : List Token := []

/-- The group with a token more. -/
def Group.push (g : Group) (ts : List Token) : Group :=
  { g with current := g.current ++ ts }

/-- What is known at a place in a glob. -/
structure Progress where
  /-- The character before. -/
  before : Option Char := none
  /-- Whether a bracket was found that is never closed; then all brackets stand for themselves. -/
  unclosed : Bool := false
  /-- The innermost group. -/
  group : Group := {}
  /-- The groups around it, the nearest first. -/
  outer : List Group := []

namespace Progress

/-- Some tokens more, before the character `c`. -/
def push (p : Progress) (c : Char) (ts : List Token) : Progress :=
  { p with before := some c, group := p.group.push ts }

/-- The tokens for two stars that stand between slashes, and how many characters they take after the
stars; `none` if they do not. `next` is the character after them. -/
def doubleStar (p : Progress) (next : Option Char) : Progress :=
  let inGroup := !p.outer.isEmpty
  let atStart := p.group.current.isEmpty
  let afterSlash := p.before = some '/'
  let afterBrace := inGroup && (p.before = some ',' || p.before = some '\x7b')
  let plain := p.push '*' [.star, .star]
  if atStart then
    match next with
    | none => p.push '*' [.directories]
    | some '/' => p.push '/' [.directories]
    | _ => plain
  else if afterSlash || afterBrace then
    let replaceLast (c : Char) (t : Token) : Progress :=
      let kept := match p.group.current.getLast? with
        | some .directories => Token.directories
        | some .everythingBelow => .everythingBelow
        | _ => t
      { p with before := some c
               group := { p.group with current := p.group.current.dropLast ++ [kept] } }
    match next with
    | none => replaceLast '*' .everythingBelow
    | some '/' => replaceLast '/' .between
    | some c => if inGroup && (c = ',' || c = '\x7d') then replaceLast '*' .everythingBelow else plain
  else plain

end Progress

/-- Reads a glob; `fuel` bounds the number of its characters. -/
def readFrom : Nat → Progress → Text → Option (List Token)
  | 0, _, _ => none
  | _ + 1, p, [] => if p.outer.isEmpty then some p.group.current else none
  | fuel + 1, p, c :: t =>
    match c with
    | '?' => readFrom fuel (p.push c [.any]) t
    | '*' =>
      match t with
      | '*' :: rest =>
        let q := p.doubleStar rest.head?
        readFrom fuel q (if q.before = some '/' then rest.tail else rest)
      | _ => readFrom fuel (p.push c [.star]) t
    | '[' =>
      if p.unclosed then readFrom fuel (p.push c [.byte 91]) t
      else
        let negated := t.head? = some '!' || t.head? = some '^'
        match readBrackets [] true false (if negated then t.tail else t) with
        | .unclosed => readFrom fuel { p.push c [.byte 91] with unclosed := true } t
        | .invalid => none
        | .closed ranges rest =>
          readFrom fuel (p.push ']' [.oneOf negated (ranges.flatMap byteRanges)]) rest
    | '\x7b' =>
      readFrom fuel { p with before := some c, group := {}, outer := p.group :: p.outer } t
    | '\x7d' =>
      match p.outer with
      | [] => none
      | around :: outer =>
        let branches := p.group.finished ++ [p.group.current]
        readFrom fuel
          { p with before := some c, group := around.push [.alternatives branches], outer } t
    | ',' =>
      if p.outer.isEmpty then readFrom fuel (p.push c [.byte 44]) t
      else
        readFrom fuel
          { p with before := some c
                   group := ⟨p.group.finished ++ [p.group.current], []⟩ } t
    | '\\' =>
      match t with
      | [] => none
      | d :: rest => readFrom fuel (p.push d ((String.utf8EncodeChar d).map .byte)) rest
    | _ => readFrom fuel (p.push c ((String.utf8EncodeChar c).map .byte)) t

/-- The glob that a text stands for, if it is one. -/
def read? (t : Text) : Option (List Token) :=
  readFrom (t.length + 1) {} t

end Glob

end ElementModules
