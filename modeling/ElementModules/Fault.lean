import ElementModules.Text.Basic

/-!
# Faults of file operations

Why an operation on a file or directory cannot be carried out.
-/

namespace ElementModules

/-- Why an operation on a file or directory fails. -/
inductive Fault
  /-- Nothing stands at the path. -/
  | notFound
  /-- The path leads through a file. -/
  | notDirectory
  /-- A directory stands where a file is needed. -/
  | isDirectory
  /-- Something stands at the path already. -/
  | alreadyExists
  /-- A directory that is to go holds entries. -/
  | notEmpty
  /-- The content of a file is no text. -/
  | notText
  /-- A name has more than 255 bytes. -/
  | nameTooLong
  /-- A path holds a null character. -/
  | nullInPath
  /-- Any other reason, in the words of the system. -/
  | other (reason : Text)
  deriving DecidableEq, Repr

/-- A fault in words. -/
def Fault.message : Fault → Text
  | .notFound => "No such file or directory (os error 2)"
  | .notDirectory => "Not a directory (os error 20)"
  | .isDirectory => "Is a directory (os error 21)"
  | .alreadyExists => "File exists (os error 17)"
  | .notEmpty => "Directory not empty (os error 39)"
  | .notText => "stream did not contain valid UTF-8"
  | .nameTooLong => "File name too long (os error 36)"
  | .nullInPath => "file name contained an unexpected NUL byte"
  | .other reason => reason

end ElementModules
