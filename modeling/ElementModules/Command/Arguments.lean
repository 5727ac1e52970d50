import ElementModules.Path

/-!
# Arguments of the command

The command has six subcommands. Some options may stand before or after the subcommand, where the
latter counts; others belong to a subcommand. Arguments are read from left to right, and the first
that cannot be used ends the reading.

Main statement: `Request.read_nil`, without a subcommand there is nothing to do.
-/

namespace ElementModules.Command

/-- The subcommands. -/
inductive Verb
  | normalize
  | convert
  | generate
  | patch
  | index
  | run
  deriving DecidableEq, Repr

/-- The formats of reports. -/
inductive Format
  | text
  | json
  deriving DecidableEq, Repr

/-- Options without a value. -/
inductive Switch
  | verbose
  | noColor
  /-- Generated modules replace files that differ. -/
  | force
  /-- No copies are made. -/
  | noBackup
  deriving DecidableEq, Repr

/-- Options with a value. -/
inductive Setting
  /-- The root of the project. -/
  | root
  /-- The file with the configuration. -/
  | config
  /-- The format of the report. -/
  | format
  /-- The file with the table of elements. -/
  | table
  deriving DecidableEq, Repr

/-- Why the reading of arguments ends before there is anything to do. -/
inductive Stop
  /-- The arguments are not as they should be. -/
  | usage
  /-- The version is asked for. -/
  | version (verb : Option Verb)
  /-- Help is asked for. -/
  | help
  deriving DecidableEq, Repr

/-- The options that were given in one place. -/
structure Given where
  switches : List Switch := []
  settings : List (Setting × Text) := []
  deriving DecidableEq, Repr

/-- The subcommands by their names. -/
def Verb.names : List (Text × Verb) :=
  [("normalize", .normalize), ("convert", .convert), ("generate", .generate), ("patch", .patch),
    ("index", .index), ("run", .run)]

/-- The name of a subcommand. -/
def Verb.name : Verb → Text
  | .normalize => "normalize"
  | .convert => "convert"
  | .generate => "generate"
  | .patch => "patch"
  | .index => "index"
  | .run => "run"

/-- The formats by their names. -/
def Format.names : List (Text × Format) := [("text", .text), ("json", .json)]

/-- The switches that may be given in a place: after a subcommand, or before it. -/
def switches (place : Option Verb) : List (Text × Switch) :=
  let common : List (Text × Switch) := [("verbose", .verbose), ("no-color", .noColor)]
  let own : List (Text × Switch) := match place with
    | some .convert => [("no-backup", .noBackup)]
    | some .generate => [("force", .force)]
    | some .run => [("force", .force), ("no-backup", .noBackup)]
    | _ => []
  common ++ own

/-- The settings that may be given in a place. -/
def settings (place : Option Verb) : List (Text × Setting) :=
  let common : List (Text × Setting) :=
    [("root", .root), ("config", .config), ("format", .format)]
  let own : List (Text × Setting) := match place with
    | some .generate => [("table", .table)]
    | _ => []
  common ++ own

/-- The settings that have a letter. -/
def settingLetters : List (Char × Setting) := [('p', .root), ('c', .config), ('f', .format)]

namespace Given

/-- A switch can be given once. -/
def addSwitch (g : Given) (s : Switch) : Except Stop Given :=
  if s ∈ g.switches then .error .usage else .ok { g with switches := g.switches ++ [s] }

/-- A setting can be given once. Formats have names. -/
def addSetting (g : Given) (s : Setting) (value : Text) : Except Stop Given :=
  if s ∈ g.settings.map Prod.fst then .error .usage
  else if s = .format && (Format.names.lookup value).isNone then .error .usage
  else .ok { g with settings := g.settings ++ [(s, value)] }

/-- The value of a setting. -/
def value? (g : Given) (s : Setting) : Option Text :=
  g.settings.lookup s

end Given

/-- Reads letters after a hyphen. The last letter may name a setting whose value is the rest of the
argument or, if there is none, the next argument; in this case the setting is returned. -/
def readLetters (place : Option Verb) (g : Given) : Text → Except Stop (Given × Option Setting)
  | [] => .ok (g, none)
  | c :: t =>
    match settingLetters.lookup c with
    | some s =>
      match t with
      | [] => .ok (g, some s)
      | '=' :: value => (g.addSetting s value).map (·, none)
      | value => (g.addSetting s value).map (·, none)
    | none =>
      if c = 'v' then
        match g.addSwitch .verbose with
        | .ok g => readLetters place g t
        | .error e => .error e
      else if c = 'V' then .error (.version place)
      else if c = 'h' then .error .help
      else .error .usage

/-- Reads the name of an option after two hyphens, perhaps with a value after an equals sign. -/
def readName (place : Option Verb) (g : Given) (t : Text) : Except Stop (Given × Option Setting) :=
  let name := t.takeWhile (· != '=')
  let value : Option Text := if name.length < t.length then some (t.drop (name.length + 1)) else none
  match (settings place).lookup name, (switches place).lookup name, value with
  | some s, _, some v => (g.addSetting s v).map (·, none)
  | some s, _, none => .ok (g, some s)
  | none, some s, none => (g.addSwitch s).map (·, none)
  | none, some _, some _ => .error .usage
  | none, none, some _ => .error .usage
  | none, none, none =>
    if name = ("version" : Text) then .error (.version place)
    else if name = ("help" : Text) then .error .help
    else .error .usage

/-- Whether an argument is an option: it starts with a hyphen and is longer. -/
def isOption (t : Text) : Bool :=
  t.head? = some '-' && t.length ≠ 1

/-- Reads an option. -/
def readOption (place : Option Verb) (g : Given) (t : Text) :
    Except Stop (Given × Option Setting) :=
  match t with
  | '-' :: '-' :: name => readName place g name
  | _ => readLetters place g t.tail

/-- Reads options up to the first argument that is none, which is returned with those after it. The
second argument is the setting whose value comes next. -/
def readOptions (place : Option Verb) (g : Given) (awaited : Option Setting) :
    List Text → Except Stop (Given × List Text)
  | [] => if awaited.isNone then .ok (g, []) else .error .usage
  | a :: rest =>
    match awaited with
    | some s =>
      if isOption a then .error .usage
      else
        match g.addSetting s a with
        | .ok g => readOptions place g none rest
        | .error e => .error e
    | none =>
      if a = ("--" : Text) then if rest.isEmpty then .ok (g, []) else .error .usage
      else if isOption a then
        match readOption place g a with
        | .ok (g, awaited) => readOptions place g awaited rest
        | .error e => .error e
      else .ok (g, a :: rest)

/-- What the command is to do. -/
structure Request where
  verb : Verb
  /-- The options after the subcommand. -/
  own : Given
  /-- The options before the subcommand. -/
  common : Given
  deriving DecidableEq, Repr

/-- Reads all arguments. -/
def Request.read (args : List Text) : Except Stop Request :=
  match readOptions none {} none args with
  | .error e => .error e
  | .ok (_, []) => .error .usage
  | .ok (common, a :: rest) =>
    match Verb.names.lookup a with
    | none => if a = ("help" : Text) then .error .help else .error .usage
    | some verb =>
      match readOptions (some verb) {} none rest with
      | .error e => .error e
      | .ok (own, []) => .ok ⟨verb, own, common⟩
      | .ok (_, _ :: _) => .error .usage

namespace Request

/-- Without arguments there is nothing to do. -/
theorem read_nil : Request.read [] = .error .usage := rfl

/-- Whether a switch was given. -/
def has (r : Request) (s : Switch) : Bool :=
  s ∈ r.own.switches || s ∈ r.common.switches

/-- The value of a setting: after the subcommand, before it, or in the environment. -/
def value? (r : Request) (env : List (Text × Text)) (s : Setting) : Option Text :=
  let envName : Option Text := match s with
    | .root => some "TK_MIGRATE_ROOT"
    | .config => some "TK_MIGRATE_CONFIG"
    | _ => none
  (r.own.value? s).or ((r.common.value? s).or (envName.bind fun name => env.lookup name))

/-- The format of the report. -/
def format (r : Request) : Format :=
  ((r.value? [] .format).bind fun name => Format.names.lookup name).getD .text

end Request

end ElementModules.Command
