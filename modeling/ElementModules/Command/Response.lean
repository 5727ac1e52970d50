import ElementModules.Command.Arguments
import ElementModules.Json.Printer
import ElementModules.Project.Run
import ElementModules.Report.Encoding

/-!
# The command

The command finds its configuration, carries out a stage or a whole run, and prints the report. A
missing root is part of the report; a configuration that cannot be loaded and arguments that cannot
be used are not.

Main statement: `respond_unchanged`, nothing is touched unless the arguments and the configuration
are as they should be.
-/

namespace ElementModules.Command

open Project

/-- What the command prints, and the code with which it ends. -/
structure Response where
  exitCode : Nat
  output : Text := []
  deriving DecidableEq, Repr

/-- The name of the command. -/
def commandName : Text := "tk-migrate"

/-- The version of the command. -/
def versionNumber : Text := "0.1.0"

/-- The configuration file that is looked for in the root of a project. -/
def standardConfigPath : Path := "tk-migrate.json"

/-- What is printed when help is asked for. -/
def usageLine : Text :=
  "Usage: tk-migrate [OPTIONS] <normalize|convert|generate|patch|index|run>\n"

/-- What is printed if there is nothing to do. -/
def Stop.response : Stop → Response
  | .usage => ⟨2, []⟩
  | .help => ⟨0, usageLine⟩
  | .version verb =>
    let name : Text := match verb with
      | some v => commandName ++ '-' :: v.name
      | none => commandName
    ⟨0, name ++ ' ' :: versionNumber ++ ['\n']⟩

/-- The configuration before the options are applied: the file that was asked for, else the one in the
root, else the default. -/
def baseConfig (root config : Option Text) (t : Tree) : Except ConfigError Config :=
  match config with
  | some p => readConfig t ⟨p⟩
  | none =>
    let p := (Path.mk (root.getD ['.'])).join standardConfigPath
    if t.isFile p then readConfig t p else .ok {}

/-- The configuration with the options applied. -/
def applyOptions (r : Request) (root : Option Text) (c : Config) : Config :=
  { c with
    root := (root.map Path.mk).getD c.root
    convert := { c.convert with backup := c.convert.backup && !r.has .noBackup }
    generate :=
      { c.generate with
        overwrite := c.generate.overwrite || r.has .force
        table := ((r.value? [] .table).map Path.mk).or c.generate.table } }

/-- The configuration of a request. -/
def configOf (r : Request) (env : List (Text × Text)) (t : Tree) : Except ConfigError Config :=
  let root := r.value? env .root
  (baseConfig root (r.value? env .config) t).map (applyOptions r root)

/-- Carries out what a subcommand asks for. -/
def perform (v : Verb) (c : Config) (stamp : Text) (t : Tree) :
    Tree × Except Failure RunReport :=
  let single (s : Stage) : Tree × Except Failure RunReport :=
    match stage c stamp t s with
    | (t, .ok report) => (t, .ok ⟨[report]⟩)
    | (t, .error e) => (t, .error e)
  match v with
  | .normalize => single .normalize
  | .convert => single .convert
  | .generate => single .generate
  | .patch => single .patch
  | .index => single .index
  | .run => run c stamp t

/-- A number in digits. -/
def count (n : Nat) : Text := Decimal.ofNat n

/-- The line of an entry. -/
def entryLine (e : Entry) : Text :=
  "  " ++ e.line ++ "\n"

/-- The line about a stage. -/
def summaryLine (s : Summary) : Text :=
  "  " ++ count s.total ++ " entries: " ++ count s.changed ++ " changed, " ++ count s.unchanged
    ++ " unchanged, " ++ count s.skipped ++ " skipped, " ++ count s.conflicts ++ " conflicts, "
    ++ count s.failures ++ " failures\n"

/-- The lines of a stage: its name, underlined, its entries and its summary. -/
def stageLines (r : StageReport) : Text :=
  let label := r.stage.label
  '\n' :: label ++ '\n' :: List.replicate label.length '=' ++ '\n' :: r.entries.flatMap entryLine
    ++ summaryLine r.summary

/-- The line about all stages. -/
def totalLine (s : Summary) : Text :=
  "\nTotal: " ++ count s.changed ++ " changed, " ++ count s.conflicts ++ " conflicts, "
    ++ count s.failures ++ " failures\n"

/-- A report in a format. -/
def render (f : Format) (r : RunReport) : Text :=
  match f with
  | .text =>
    let total : Text := if 1 < r.stages.length then totalLine r.summary else []
    r.stages.flatMap stageLines ++ total
  | .json => r.toJson.pretty ++ ['\n']

/-- What is printed about a run. -/
def response (f : Format) : Except Failure RunReport → Response
  | .ok report => ⟨0, render f report⟩
  | .error e => if e.isFatal then ⟨0, "❌ " ++ e.message ++ "\n"⟩ else ⟨1, []⟩

/-- Carries out the command with some arguments in an environment. -/
def respond (args : List Text) (env : List (Text × Text)) (stamp : Text) (t : Tree) :
    Tree × Response :=
  match Request.read args with
  | .error stop => (t, stop.response)
  | .ok r =>
    match configOf r env t with
    | .error _ => (t, ⟨1, []⟩)
    | .ok c =>
      let (t, result) := perform r.verb c stamp t
      (t, response r.format result)

/-- Nothing is touched unless the arguments and the configuration are as they should be. -/
theorem respond_unchanged {args : List Text} {env : List (Text × Text)} {stamp : Text} {t : Tree}
    (h : ∀ r, Request.read args = .ok r → ∃ e, configOf r env t = .error e) :
    (respond args env stamp t).1 = t := by
  unfold respond
  split
  · rfl
  next r hr =>
    obtain ⟨e, he⟩ := h r hr
    simp [he]

end ElementModules.Command
