import ElementModules.Ignore.Glob
import ElementModules.Text.Blank
import ElementModules.Tree.Basic

/-!
# Rules for what is left out

A file of rules says which files and directories below its directory are left out when it is listed.
Each line is a rule: a glob, with an exclamation mark in front if it takes something in again, and a
slash at its end if it is about directories only. A glob without slashes is about names at any
depth. Of the rules that apply the last one counts.
-/

namespace ElementModules.Ignore

open Text

/-- What rules say about a path that they apply to. -/
inductive Verdict
  /-- It is left out. -/
  | out
  /-- It is taken in. -/
  | taken
  deriving DecidableEq, Repr

/-- A line of a file of rules. -/
structure Rule where
  verdict : Verdict
  /-- Whether the rule is about directories only. -/
  onlyDirs : Bool
  glob : List Glob.Token
  deriving Repr

/-- The glob of a rule as it is read: at any depth unless it is bound to the directory of the rules
or holds a slash, and below a directory if it ends with two stars. -/
def globText (bound : Bool) (t : Text) : Text :=
  let anywhere := !bound && '/' ∉ t && !startsWith t "**/" && t ≠ ("**" : Text)
  let full : Text := if anywhere then "**/" ++ t else t
  if (dropTrailing? "/**" full).isSome then full ++ "/*" else full

/-- The text of a rule without the slash at its end, and whether there was one. A backslash before it
goes, too. -/
def dropSlash (t : Text) : Text × Bool :=
  match dropTrailing? "/" t with
  | some r => (dropTrailing "\\" r, true)
  | none => (t, false)

/-- The rule of a line. Blank lines, comments and texts that are no globs give none. -/
def Rule.read? (line : Text) : Option Rule :=
  if startsWith line "#" then none
  else
    let t := if (dropTrailing? "\\ " line).isSome then line else trimEnd line
    if t = [] then none
    else
      let escaped := startsWith t "\\!" || startsWith t "\\#"
      let negated := !escaped && startsWith t "!"
      let t := if escaped || negated then t.tail else t
      let bound := !escaped && startsWith t "/"
      let t := if bound then t.tail else t
      let (t, onlyDirs) := dropSlash t
      (Glob.read? (globText bound t)).map fun glob =>
        { verdict := if negated then .taken else .out, onlyDirs, glob }

/-- A line without its end. -/
def withoutEnd (line : Text) : Text :=
  match dropTrailing? "\n" line with
  | some l => dropTrailing "\r" l
  | none => line

/-- The lines of a file of bytes. -/
def byteLines : List UInt8 → List (List UInt8)
  | [] => []
  | b :: bs =>
    if b = 10 then [b] :: byteLines bs
    else match byteLines bs with
      | [] => [[b]]
      | l :: ls => (b :: l) :: ls

/-- The lines of a file as far as they are texts. -/
def readableLines : Content → List Text
  | .text t => lines t
  | .bytes bs => ((byteLines bs).map decodeUtf8?).takeWhile Option.isSome |>.filterMap id

/-- The rules of a file. A byte order mark in front is passed over. -/
def rules (c : Content) : List Rule :=
  match readableLines c with
  | [] => []
  | l :: ls => ((l.dropWhile (· = '\ufeff')) :: ls).filterMap fun l => Rule.read? (withoutEnd l)

/-- What some rules say about a path below their directory. -/
def verdict? (rs : List Rule) (path : Text) (isDir : Bool) : Option Verdict :=
  (rs.reverse.find? fun r => (!r.onlyDirs || isDir) && Glob.matchesText r.glob path).map Rule.verdict

end ElementModules.Ignore
