import AverageLinkage.Command.Program

/-!
# The command line

Connects the program to the files, the environment and the streams of the
machine.
-/

namespace AverageLinkage

def SystemFault.ofError (error : IO.Error) : SystemFault :=
  match error with
  | .noFileOrDirectory .. => .notFound
  | .inappropriateType _ 20 _ => .notDirectory
  | .inappropriateType _ 21 _ => .isDirectory
  | .resourceExhausted _ 28 _ => .noSpace
  | .invalidArgument _ 36 _ => .nameTooLong
  | _ => .other (toString error)

def guarded {α : Type} (action : IO α) : IO (Except SystemFault α) := do
  match ← action.toBaseIO with
  | .ok value => return .ok value
  | .error error => return .error (.ofError error)

/-- Open a file, then read it to its end. -/
def openFile (path : String) : IO (Except SystemFault Input) := do
  match ← guarded (IO.FS.Handle.mk path .read) with
  | .error cause => return .error cause
  | .ok handle =>
      match ← guarded handle.readBinToEnd with
      | .ok bytes => return .ok (Input.ofBytes bytes.data.toList)
      | .error cause => return .ok (Input.unreadable cause)

def createFile (path : String) : IO (Except SystemFault Unit) :=
  guarded do
    let _ ← IO.FS.Handle.mk path .write

/-- Write a text and see it through to the device. -/
def fillFile (path text : String) : IO (Except SystemFault Unit) :=
  guarded do
    let handle ← IO.FS.Handle.mk path .write
    handle.putStr text
    handle.flush

instance machineAccess : FileAccess IO where
  openInput := openFile
  create := createFile
  write := fillFile

def settingOf (name : String) : IO (Option Text.Bytes) := do
  return (← IO.getEnv name).map Text.encode

end AverageLinkage

open AverageLinkage in
def main (arguments : List String) : IO UInt32 := do
  let settings : Settings :=
    { logFormat := ← settingOf LogFormat.settingName
      logFilter := ← settingOf LogFilter.settingName }
  let outcome ← Program.run settings arguments
  (← IO.getStderr).putStr outcome.diagnostics
  (← IO.getStdout).putStr outcome.output
  return outcome.exitCode.toUInt32
