import ElementModules.Config.Check
import ElementModules.Descriptor.Repair

/-!
# Failures

What can go wrong while the modules of a project are worked on. Only a missing root ends a run; every
other failure concerns one file or directory and is reported for it.

Main statement: `Failure.isFatal_iff`.
-/

namespace ElementModules

/-- What can go wrong with the arrangement of files. -/
inductive LayoutError
  /-- The root of the project or of its services does not exist. -/
  | missingRoot (path : Path)
  /-- A directory that is to be listed does not exist. -/
  | missingDirectory (path : Path)
  /-- An operation on a file or directory failed. -/
  | operation (path : Path) (fault : Fault)
  /-- A path is no text. -/
  | notText (path : Path)
  deriving DecidableEq, Repr

namespace LayoutError

/-- The error in words. -/
def message : LayoutError → Text
  | .missingRoot p => "root directory not found: " ++ p.text ++ " (run from the project root)"
  | .missingDirectory p => "directory not found: " ++ p.text
  | .operation p fault => "I/O error on " ++ p.text ++ ": " ++ fault.message
  | .notText p => "path is not valid UTF-8: " ++ p.text

/-- Whether the run must end. -/
def isFatal : LayoutError → Bool
  | .missingRoot _ => true
  | _ => false

/-- The file or directory that the error is about. -/
def path? : LayoutError → Option Path
  | .missingRoot p | .missingDirectory p | .operation p _ => some p
  | .notText _ => none

end LayoutError

/-- What can go wrong while modules are worked on. -/
inductive Failure
  /-- The registration of a module cannot be repaired. -/
  | repair (error : Descriptor.RepairError)
  /-- The name of an element cannot be bound. -/
  | invalidIdentifier (name : Text)
  /-- A file cannot be read. -/
  | read (path : Path) (fault : Fault)
  /-- A file cannot be written. -/
  | write (path : Path) (fault : Fault)
  | layout (error : LayoutError)
  | config (error : ConfigError)
  deriving DecidableEq, Repr

namespace Failure

/-- The failure in words. -/
def message : Failure → Text
  | .repair e => e.message
  | .invalidIdentifier name => "'" ++ name ++ "' is not a valid identifier"
  | .read p fault => "failed to read " ++ p.text ++ ": " ++ fault.message
  | .write p fault => "failed to write " ++ p.text ++ ": " ++ fault.message
  | .layout e => e.message
  | .config e => e.message

/-- Whether the run must end. -/
def isFatal : Failure → Bool
  | .layout e => e.isFatal
  | _ => false

/-- The file or directory that the failure is about. -/
def path? : Failure → Option Path
  | .read p _ | .write p _ => some p
  | .layout e => e.path?
  | _ => none

/-- Only a missing root ends a run. -/
theorem isFatal_iff (f : Failure) : f.isFatal ↔ ∃ p, f = .layout (.missingRoot p) := by
  cases f with
  | layout e => cases e <;> simp [isFatal, LayoutError.isFatal]
  | _ => simp [isFatal]

end Failure

end ElementModules
