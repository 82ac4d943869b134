import DeclaredSchema.CommandLine.Run

/-!
# The program

Connects the commands to the files and outputs of the system. An error that a command raises is
shown on the error output, and the program ends with exit code one.
-/

open DeclaredSchema DeclaredSchema.CommandLine

/-- What the system reports when a file cannot be read or written. -/
def systemFault (e : IO.Error) : FileFault :=
  match e with
  | .noFileOrDirectory .. => .missing
  | .inappropriateType _ code _ => if code.toNat = 20 then .notDirectory else .isDirectory
  | .permissionDenied _ code reason => .other code.toNat reason
  | .resourceExhausted _ 28 _ => .noSpace
  | other => .other 5 (toString other)

/-- Reading and writing the files of the system. -/
def systemAccess : FileAccess IO where
  read p := do
    if let some fault := p.fault? then return .error fault
    try
      let text ← IO.FS.readFile p.text
      return .ok (String.ofList (Text.unifyNewlines text.toList))
    catch e => return .error (systemFault e)
  write p text := do
    if let some fault := p.fault? then return .error fault
    try
      match text.encode with
      | .ok s =>
        IO.FS.writeFile p.text s
        return .ok ()
      | .error fault =>
        IO.FS.writeFile p.text ""
        return .error (.unencodable fault)
    catch e => return .error (systemFault e)

/-- A text for the error output, with the halves in it as escapes. -/
def escaped (text : CodeText) : String :=
  String.ofList <| text.flatMap fun
    | .char c => [c]
    | x => x.escape '\''

def main (args : List String) : IO UInt32 := do
  let outcome ← runProgram systemAccess args
  match outcome.output.encode with
  | .error fault =>
    IO.eprintln (escaped outcome.errors ++ fault.message)
    return 1
  | .ok output =>
    IO.print output
    IO.eprint (escaped outcome.errors)
    match outcome.ending with
    | .exit code => return code.toUInt32
    | .raised error =>
      IO.eprintln (escaped error.message)
      return 1
