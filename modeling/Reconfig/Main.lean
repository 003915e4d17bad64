import Reconfig.CommandLine.Run

/-!
# The program

The command line with the files of the machine.
-/

namespace Reconfig

/-- The cause of a failed access. -/
def FileError.ofFailure (e : IO.Error) : FileError :=
  match e with
  | .noFileOrDirectory .. => .notFound
  | .inappropriateType _ 20 _ => .notADirectory
  | .inappropriateType _ 21 _ => .isADirectory
  | .permissionDenied _ code _ =>
    .other ("Permission denied (os error " ++ toString code.toNat ++ ")")
  | e => .other (toString e)

/-- The text of a file of the machine. -/
def readMachineFile (path : String) : IO (Except FileError String) := do
  try
    let bytes ← IO.FS.readBinFile path
    match String.fromUTF8? bytes with
    | some text => pure (.ok text)
    | none => pure (.error .notText)
  catch e => pure (.error (.ofFailure e))

/-- The names of the files in a directory of the machine. -/
def listMachineFiles (path : String) : IO (Except FileError (List String)) := do
  try
    let entries ← ((← IO.currentDir) / path).readDir
    let files ← entries.filterM fun e => do
      let data ← e.path.metadata
      pure (data.type == IO.FS.FileType.file)
    pure (.ok (files.toList.map fun e => e.fileName))
  catch e => pure (.error (.ofFailure e))

/-- The files of the machine. -/
def machineFiles : Files IO := ⟨readMachineFile, listMachineFiles⟩

end Reconfig

/-- Run the command line. -/
def main (arguments : List String) : IO UInt32 := do
  match ← Reconfig.CommandLine.run .asListed Reconfig.machineFiles arguments with
  | .refused =>
    IO.eprintln "error: the arguments do not fit together"
    pure 2
  | .finished o =>
    IO.print o.out
    IO.eprint o.err
    pure (UInt32.ofNat o.status)
