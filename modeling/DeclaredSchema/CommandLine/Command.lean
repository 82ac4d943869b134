import DeclaredSchema.CommandLine.Arguments

/-!
# The commands

There are two commands: one prints the schema of a declaration file, the other checks that the file
compiles. Without a command, or when help is asked for, a text of help is shown instead.

## Main definitions

* `Command` — the commands with their arguments
* `Invocation` — what a command line asks for
* `Invocation.ofArguments` — reading a command line
-/

namespace DeclaredSchema.CommandLine

/-- A command with its arguments: the declaration file, the configuration file, and for printing
the file to write to. -/
inductive Command where
  | print (file : String) (config output : Option OptionValue)
  | check (file : String) (config : Option OptionValue)
  deriving DecidableEq, Repr

namespace Command

def file : Command → String
  | print file .. | check file .. => file

def config? : Command → Option OptionValue
  | print _ config _ | check _ config => config

end Command

/-- What a command line asks for: a text of help, a command, or nothing that makes sense. -/
inductive Invocation where
  | help (text : String)
  | misuse (usage program message : String)
  | run (verbose : Bool) (command : Command)
  deriving DecidableEq, Repr

/-! ## Options -/

def helpOption : OptionSpec := ⟨["-h", "--help"], .help⟩

def verboseOption : OptionSpec := ⟨["-v", "--verbose"], .flag⟩

def configOption : OptionSpec := ⟨["--config"], .value⟩

def outputOption : OptionSpec := ⟨["--output", "-o"], .value⟩

/-- What comes before the command, which takes everything behind it. -/
def mainGrammar : Grammar := ⟨[helpOption, verboseOption], true⟩

def printGrammar : Grammar := ⟨[helpOption, configOption, outputOption], false⟩

def checkGrammar : Grammar := ⟨[helpOption, configOption], false⟩

/-! ## Texts -/

def programName : String := "shapeql"

def mainUsage : String := "usage: shapeql [-h] [-v] COMMAND ...\n"

def printUsage : String := "usage: shapeql print [-h] [--config CONFIG] [--output OUTPUT] file\n"

def checkUsage : String := "usage: shapeql check [-h] [--config CONFIG] file\n"

def mainHelp : String := mainUsage ++
  "\n" ++
  "ShapeQL: compile TypeScript-style type declarations into a GraphQL schema\n" ++
  "\n" ++
  "positional arguments:\n" ++
  "  COMMAND\n" ++
  "    print        Print the GraphQL schema of a declaration file\n" ++
  "    check        Check that a declaration file compiles\n" ++
  "\n" ++
  "options:\n" ++
  "  -h, --help     show this help message and exit\n" ++
  "  -v, --verbose  Log compiler progress to stderr\n"

def printHelp : String := printUsage ++
  "\n" ++
  "Compile a declaration file and print the resulting schema in SDL form.\n" ++
  "\n" ++
  "positional arguments:\n" ++
  "  file                  Declaration file to compile\n" ++
  "\n" ++
  "options:\n" ++
  "  -h, --help            show this help message and exit\n" ++
  "  --config CONFIG       YAML file with compile options\n" ++
  "  --output OUTPUT, -o OUTPUT\n" ++
  "                        Write the schema to this file instead of standard\n" ++
  "                        output\n"

def checkHelp : String := checkUsage ++
  "\n" ++
  "Compile a declaration file and report errors without printing the schema.\n" ++
  "\n" ++
  "positional arguments:\n" ++
  "  file             Declaration file to compile\n" ++
  "\n" ++
  "options:\n" ++
  "  -h, --help       show this help message and exit\n" ++
  "  --config CONFIG  YAML file with compile options\n"

/-! ## Reading -/

/-- A command that is not run. -/
def ofUsage (helpText usage program : String) : Usage → Invocation
  | .help => .help helpText
  | u => .misuse usage program u.message

def mainMisuse (message : String) : Invocation := .misuse mainUsage programName message

/-- A command line with arguments that fit nowhere. -/
def unrecognized (extra : List String) : Invocation :=
  mainMisuse ("unrecognized arguments: " ++ " ".intercalate extra)

/-- How a command is read: its name, its grammar and texts, and what it is made of. -/
structure CommandSpec where
  name : String
  grammar : Grammar
  usage : String
  help : String
  make : String → Arguments → Command

def commands : List CommandSpec := [
  ⟨"print", printGrammar, printUsage, printHelp,
    fun file a => .print file (a.value? configOption) (a.value? outputOption)⟩,
  ⟨"check", checkGrammar, checkUsage, checkHelp, fun file a => .check file (a.value? configOption)⟩]

/-- The command that the arguments behind its name give. Arguments that fit nowhere, before or
behind the name, are refused when nothing else is wrong. -/
def CommandSpec.read (s : CommandSpec) (main : Arguments) (args : List String) : Invocation :=
  let program := programName ++ " " ++ s.name
  match s.grammar.read args with
  | .error u => ofUsage s.help s.usage program u
  | .ok a =>
    match a.operand with
    | some (file :: _) =>
      match main.extra ++ a.extra with
      | [] => .run (main.has verboseOption) (s.make file a)
      | extra => unrecognized extra
    | _ => .misuse s.usage program "the following arguments are required: file"

/-- What a name says that no command has. -/
def invalidChoice (name : String) : Invocation :=
  mainMisuse ("argument COMMAND: invalid choice: " ++ Text.quote name ++ " (choose from " ++
    ", ".intercalate (commands.map fun s => Text.quote s.name) ++ ")")

/-- What a command line asks for. -/
def Invocation.ofArguments (args : List String) : Invocation :=
  match mainGrammar.read args with
  | .error u => ofUsage mainHelp mainUsage programName u
  | .ok main =>
    match main.operand with
    | some (name :: rest) =>
      match commands.find? fun s => s.name = name with
      | some s => s.read main rest
      | none => invalidChoice name
    | _ =>
      match main.extra with
      | [] => .help mainHelp
      | extra => unrecognized extra

end DeclaredSchema.CommandLine
