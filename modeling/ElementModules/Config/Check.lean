import ElementModules.Config.Basic
import ElementModules.Fault
import ElementModules.Script.Identifier

/-!
# Checks of configurations

The receiver must be a name, the index file a bare file name, and the libraries must have names, each
its own. Main statement: `Config.check_eq_ok_iff`.
-/

namespace ElementModules

/-- Why there is no configuration, or no table of elements. -/
inductive ConfigError
  /-- The file does not exist. -/
  | missingFile (path : Path)
  /-- The value of an option cannot be used. -/
  | invalidOption (option reason : Text)
  /-- The file cannot be read. -/
  | unreadable (fault : Fault)
  /-- The text is not of the expected form. -/
  | malformed
  deriving DecidableEq, Repr

namespace ConfigError

/-- The error in words. -/
def message : ConfigError → Text
  | .missingFile p => "configuration file not found: " ++ p.text
  | .invalidOption option reason => "invalid configuration option '" ++ option ++ "': " ++ reason
  | .unreadable fault => "failed to read configuration: " ++ fault.message
  | .malformed => "failed to parse configuration: not of the expected form"

/-- The receiver is no name. -/
def receiver (value : Text) : ConfigError :=
  .invalidOption "registry.receiver" ("'" ++ value ++ "' is not a valid identifier")

/-- The index file is no bare file name. -/
def indexFile : ConfigError :=
  .invalidOption "registry.index_file" "must be a bare file name"

/-- A library has no name. -/
def unnamedLibrary : ConfigError :=
  .invalidOption "libraries" "library names must not be empty"

/-- Two libraries have one name. -/
def repeatedLibrary (name : Text) : ConfigError :=
  .invalidOption "libraries" ("library '" ++ name ++ "' is declared twice")

end ConfigError

namespace Config

/-- The first fault in the names of libraries, given the names before them. -/
def checkNames (seen : List Text) : List Text → Except ConfigError Unit
  | [] => .ok ()
  | n :: ns =>
    if n = [] then .error .unnamedLibrary
    else if n ∈ seen then .error (.repeatedLibrary n)
    else checkNames (n :: seen) ns

/-- The first fault of a configuration. -/
def check (c : Config) : Except ConfigError Unit :=
  if !Script.isName c.registry.receiver then .error (.receiver c.registry.receiver)
  else if c.registry.indexFile = [] ∨ '/' ∈ c.registry.indexFile then .error .indexFile
  else checkNames [] (c.libraries.map Library.name)

/-- What a configuration must satisfy. -/
structure Valid (c : Config) : Prop where
  /-- The receiver is a name. -/
  receiver : Script.isName c.registry.receiver
  /-- The index file is not empty. -/
  indexFile_ne_nil : c.registry.indexFile ≠ []
  /-- The index file lies in no directory of its own. -/
  indexFile_bare : '/' ∉ c.registry.indexFile
  /-- All libraries have names. -/
  named : [] ∉ c.libraries.map Library.name
  /-- No two libraries have one name. -/
  distinct : (c.libraries.map Library.name).Nodup

theorem checkNames_eq_ok_iff (seen names : List Text) :
    checkNames seen names = .ok ()
      ↔ [] ∉ names ∧ names.Nodup ∧ ∀ n ∈ names, n ∉ seen := by
  induction names generalizing seen with
  | nil => simp [checkNames]
  | cons n names ih =>
    unfold checkNames
    split
    next h => simp [h]
    next h =>
      split
      next hs =>
        simp only [reduceCtorEq, List.mem_cons, forall_eq_or_imp, false_iff]
        exact fun hall => hall.2.2.1 hs
      next hs =>
        rw [ih]
        simp only [List.mem_cons, not_or, List.nodup_cons, forall_eq_or_imp]
        constructor
        · rintro ⟨hne, hnd, hall⟩
          exact ⟨⟨Ne.symm h, hne⟩, ⟨fun hm => (hall n hm).1 rfl, hnd⟩, hs, fun m hm => (hall m hm).2⟩
        · rintro ⟨⟨-, hne⟩, ⟨hn, hnd⟩, -, hall⟩
          exact ⟨hne, hnd, fun m hm => ⟨fun e => hn (e ▸ hm), hall m hm⟩⟩

/-- A configuration passes the checks if it satisfies what it must. -/
theorem check_eq_ok_iff (c : Config) : c.check = .ok () ↔ c.Valid := by
  unfold check
  split
  next h =>
    simp only [reduceCtorEq, false_iff]
    exact fun v => by simp [v.receiver] at h
  next h =>
    split
    next hi =>
      simp only [reduceCtorEq, false_iff]
      intro v
      exact hi.elim v.indexFile_ne_nil v.indexFile_bare
    next hi =>
      rw [not_or] at hi
      rw [checkNames_eq_ok_iff]
      constructor
      · rintro ⟨hne, hnd, -⟩
        exact ⟨by simpa using h, hi.1, hi.2, hne, hnd⟩
      · exact fun v => ⟨v.named, v.distinct, by simp⟩

end Config

end ElementModules
