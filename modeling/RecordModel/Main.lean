/-
**The command line program.**

The program reads the files that its arguments name, runs the command and prints what it gives.
-/

import RecordModel.CommandLine.Run

set_option relaxedAutoImplicit false
set_option autoImplicit false

namespace RecordModel

/-- The text of a file, or why there is none. -/
def readText (path : String) : IO (Except ReadFault String) := do
  try
    let bytes ← IO.FS.readBinFile path
    match String.fromUTF8? bytes with
    | some text => return .ok text
    | none => return .error .notText
  catch
    | .inappropriateType none _ _ => return .error .isDirectory
    | .inappropriateType (some _) _ _ => return .error .notDirectory
    | .invalidArgument _ _ _ => return .error .nameTooLong
    | .permissionDenied _ _ _ => return .error .denied
    | _ => return .error .notFound

/-- The files that a command reads. -/
def Command.paths : Command → List String
  | .schema model _ _ => [model]
  | .fake model _ _ settings _ _ => model :: settings.toList

/-- The texts of files by their paths. -/
def readFiles (paths : List String) : IO Files := do
  let texts ← paths.mapM fun path => do return (path, ← readText path)
  return fun path => (Keyed.get? path texts).getD (.error .notFound)

/-- A seed that differs from run to run. -/
def freshSeed : IO UInt64 := do
  let bytes ← IO.getRandomBytes 8
  return bytes.toList.foldl (fun n b => n * 256 + b.toUInt64) 0

end RecordModel

open RecordModel in
/-- Runs the program. -/
def main (arguments : List String) : IO UInt32 := do
  let files ← readFiles (((Command.parse arguments).map Command.paths).getD [])
  match CommandLine.run files (← freshSeed) arguments with
  | .printed text => IO.print text; return 0
  | .failed message => IO.eprintln message; return 1
  | .refused => IO.eprintln "error: invalid arguments"; return 2
  | .broken _ => IO.eprintln "error: a value is out of range"; return 101
