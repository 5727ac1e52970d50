import ElementModules.Command.Response
import ElementModules.Tree.Change
import Std.Time.DateTime.Timestamp

/-!
# The program

The program reads the directory in which it runs as a tree, carries out the command on it, and writes
what has changed. All decisions are taken by `Command.respond`; the backup directory of a run is
stamped with the seconds since 1970.
-/

namespace ElementModules.Program

/-- Adds what lies in some directory entries to the tree, given the address of their directory.
Entries that are neither files nor directories, and names that are no texts, have no place in it. -/
partial def readEntries (t : Tree) (a : Address) : List IO.FS.DirEntry → IO Tree
  | [] => return t
  | e :: es => do
    let b := a ++ [e.fileName.toList]
    let kind := (← e.path.symlinkMetadata).type
    let t ←
      if kind == .dir then readEntries (t.addDir b) b (← e.path.readDir).toList
      else if kind == .file then
        pure (t.setFile b (.ofBytes (← IO.FS.readBinFile e.path).toList))
      else pure t
    readEntries t a es

/-- The path of an address, seen from the directory in which the program runs. -/
def pathOf (a : Address) : String :=
  String.ofList a.text

/-- The bytes of a file. -/
def bytesOf : Content → ByteArray
  | .text t => (String.ofList t).toUTF8
  | .bytes bs => ⟨bs.toArray⟩

/-- Writes a change. -/
def apply (a : Address) : Change → IO Unit
  | .file c => IO.FS.writeBinFile (pathOf a) (bytesOf c)
  | .dir => IO.FS.createDir (pathOf a)
  | .removed => do
    if ← (System.mkFilePath [pathOf a]).isDir then IO.FS.removeDir (pathOf a)
    else IO.FS.removeFile (pathOf a)

/-- The variables of the environment that the command looks at. -/
def environment : IO (List (Text × Text)) := do
  let names := ["TK_MIGRATE_ROOT", "TK_MIGRATE_CONFIG"]
  let values ← names.mapM fun n => do
    return (← IO.getEnv n).map fun v => (n.toList, v.toList)
  return values.filterMap id

end ElementModules.Program

open ElementModules in
/-- Carries out the command in the directory in which the program runs. -/
def main (args : List String) : IO UInt32 := do
  let before ← Program.readEntries .empty [] (← (← IO.currentDir).readDir).toList
  let stamp ← Std.Time.Timestamp.now
  let seconds := Decimal.ofNat stamp.toSecondsSinceUnixEpoch.val.toNat
  let (after, response) :=
    Command.respond (args.map String.toList) (← Program.environment) seconds before
  let changes := before.changes after
  let removed := changes.filter fun c => c.2 = .removed
  for (a, c) in removed.reverse ++ changes.filter fun c => c.2 ≠ .removed do
    Program.apply a c
  IO.print (String.ofList response.output)
  return response.exitCode.toUInt32
