import DeclaredSchema.CommandLine.Command
import DeclaredSchema.Compilation
import DeclaredSchema.Configuration
import DeclaredSchema.FileSystem
import DeclaredSchema.Sdl.Printer

/-!
# Running a command

A command reads the configuration, if one is given, and then the declaration file, and compiles it.
Checking says how many types there are; printing shows the schema or writes it to a file. A file is
written only when everything before that has succeeded.

Errors that are reported as faults of a file end a command with a message and an exit code. Any
other error is raised to whoever runs the program.

## Main definitions

* `RunError`, `Ending`, `Outcome` — how a command ends, and what it says
* `runCommand`, `runProgram` — running a command and a whole command line
-/

namespace DeclaredSchema.CommandLine

/-- What ends a command early. -/
inductive RunError where
  | noPath
  | configMissing (path : Path)
  | configUnreadable (path : Path) (fault : FileFault)
  | config (error : ConfigError)
  | unreadable (path : Path) (fault : FileFault)
  | compile (error : CompileError)
  | value (fault : ValueFault)
  | unwritable (path : Path) (fault : FileFault)

namespace RunError

/-- The fault of a path behind a text, unless the fault is shown alone. -/
def behind (text : String) (path : Path) (fault : FileFault) : String :=
  if fault.isReported then text ++ fault.message path else fault.message path

def message : RunError → CodeText
  | noPath => "expected str, bytes or os.PathLike object, not list"
  | configMissing path => s!"Config file not found: {path.text}"
  | configUnreadable path fault => behind "Cannot read config file: " path fault
  | config e => e.message
  | unreadable path fault => behind s!"Cannot read '{path.text}': " path fault
  | compile e => e.message
  | value f => f.message
  | unwritable path fault => behind s!"cannot write '{path.text}': " path fault

/-- Whether an error is reported as a fault of a file. -/
def isReported : RunError → Bool
  | configMissing _ => true
  | config e => e.isReported
  | compile e => e.isReported
  | value _ | noPath => false
  | configUnreadable _ fault | unreadable _ fault | unwritable _ fault => fault.isReported

end RunError

/-- How a program ends. -/
inductive Ending where
  | exit (code : Nat)
  | raised (error : RunError)

/-- How a program ends, and what it writes to its two outputs. -/
structure Outcome where
  ending : Ending
  output : CodeText
  errors : CodeText

/-- A line of the log. -/
def logLine (e : Event) : String := s!"DEBUG shapeql.compiler.{e.stage}: {e.message}\n"

/-- The log, if it is asked for. -/
def logOf (verbose : Bool) (events : List Event) : String :=
  if verbose then String.join (events.map logLine) else ""

/-- The end of a command that succeeds. -/
def success (log : String) (output : CodeText) : Outcome := ⟨.exit 0, output, log⟩

/-- The end of a command by an error. -/
def failure (log : String) (e : RunError) : Outcome :=
  if e.isReported then ⟨.exit 1, "", log ++ "Error: " ++ e.message ++ "\n"⟩
  else ⟨.raised e, "", log⟩

section Run

variable {m : Type → Type} [Monad m] (access : FileAccess m)

/-- The options in a configuration file. -/
def loadConfig (path : Path) : m (Except RunError CompileOptions) := do
  match ← access.read path with
  | .error .missing => return .error (.configMissing path)
  | .error fault => return .error (.configUnreadable path fault)
  | .ok text => return (CompileOptions.ofText path.text text).mapError .config

/-- The options of a command, standard ones if no configuration is given. -/
def loadOptions (config : Option OptionValue) : m (Except RunError CompileOptions) :=
  match config with
  | none => return .ok .standard
  | some .nothing => return .error .noPath
  | some (.text file) => loadConfig access (Path.ofText file)

/-- The schema in a declaration file, with the trace of the compilation. -/
def compileFile (path : Path) (options : CompileOptions) :
    m (Except RunError Schema × List Event) := do
  match ← access.read path with
  | .error fault => return (.error (.unreadable path fault), [])
  | .ok source =>
    let c := compilation path.text source options
    return (c.outcome.mapError .compile, .compiling path.text :: c.events)

/-- What a check says of a schema. -/
def checkReport (file : String) (s : Schema) : String :=
  "'" ++ file ++ "' compiles to a schema with " ++ toString s.typeNames.length ++
    " named type(s).\nNo issues found.\n"

/-- Prints the text of a schema, or writes it to a file. What is printed is encoded by the program
that runs this, after everything else; half a surrogate pair makes that fail. -/
def deliver (log : String) (text : CodeText) (output : Option OptionValue) : m Outcome :=
  match output with
  | none => return success log text
  | some .nothing => return failure log .noPath
  | some (.text file) => do
    let path := Path.ofText file
    match ← access.write path text with
    | .ok _ => return success log s!"Wrote schema to '{path.text}'.\n"
    | .error fault => return failure log (.unwritable path fault)

/-- What a command does with a schema. -/
def finish (log : String) (command : Command) (s : Schema) : m Outcome :=
  match command with
  | .check file _ => return success log (checkReport file s)
  | .print _ _ output =>
    match s.print with
    | .error fault => return failure log (.value fault)
    | .ok text => deliver access log (text ++ "\n") output

/-- Runs a command. -/
def runCommand (verbose : Bool) (command : Command) : m Outcome := do
  match ← loadOptions access command.config? with
  | .error e => return failure "" e
  | .ok options =>
    let (outcome, events) ← compileFile access (Path.ofText command.file) options
    let log := logOf verbose events
    match outcome with
    | .error e => return failure log e
    | .ok s => finish access log command s

/-- Runs a command line. -/
def runProgram (args : List String) : m Outcome :=
  match Invocation.ofArguments args with
  | .help text => return success "" text
  | .misuse usage program message =>
    return ⟨.exit 2, "", usage ++ program ++ ": error: " ++ message ++ "\n"⟩
  | .run verbose command => runCommand access verbose command

end Run

end DeclaredSchema.CommandLine
