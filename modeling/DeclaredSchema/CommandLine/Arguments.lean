import DeclaredSchema.Text.Numeral
import DeclaredSchema.Text.Quoted

/-!
# Arguments of a command line

A command line is a list of arguments: options, which start with a dash, and one operand. An option
may take a value, which follows in the same argument or is the next one. A long option may be cut
short as long as it stays unambiguous, and short options without a value may share a dash. Behind
two dashes there are no options any more. Two dashes are never a value themselves: an option to which
they are attached is given with nothing.

The operand is a single argument, or an argument with everything that follows it. What fits nowhere
is kept as extra.

## Main definitions

* `OptionSpec`, `Grammar` — the options there are, and what the operand takes
* `Usage` — why a command line is not run
* `Arguments`, `Grammar.read` — what a command line says
-/

namespace DeclaredSchema.CommandLine

/-! ## Options -/

/-- What an option does: it asks for help, it is a flag, or it takes a value. -/
inductive OptionKind where
  | help | flag | value
  deriving DecidableEq, Repr

/-- An option with all its names. -/
structure OptionSpec where
  names : List String
  kind : OptionKind
  deriving DecidableEq, Repr

/-- How messages name an option. -/
def OptionSpec.label (o : OptionSpec) : String := "/".intercalate o.names

/-- The options there are, and whether the operand takes everything that follows it. -/
structure Grammar where
  options : List OptionSpec
  takesRest : Bool

/-- Why a command line is not run. -/
inductive Usage where
  | help
  | ambiguous (argument : String) (names : List String)
  | unexpectedValue (option : OptionSpec) (value : String)
  | missingValue (option : OptionSpec)
  deriving DecidableEq, Repr

def Usage.message : Usage → String
  | help => ""
  | ambiguous argument names =>
    "ambiguous option: " ++ argument ++ " could match " ++ ", ".intercalate names
  | unexpectedValue o value =>
    "argument " ++ o.label ++ ": ignored explicit argument " ++ Text.quote value
  | missingValue o => "argument " ++ o.label ++ ": expected one argument"

/-- An option as an argument has it, under one of its names, with what is attached to the name in the
same argument. -/
structure Found where
  option : OptionSpec
  name : List Char
  attached : Option (List Char)
  deriving DecidableEq, Repr

/-- What an argument is. The two dashes count as such only once. -/
inductive Mark where
  | dashes
  | word
  | option (found : Option Found)
  deriving DecidableEq, Repr

namespace Grammar

/-- All names with their options. -/
def named (g : Grammar) : List (List Char × OptionSpec) :=
  g.options.flatMap fun o => o.names.map fun name => (name.toList, o)

/-- The option of a name. -/
def option? (g : Grammar) (name : List Char) : Option OptionSpec := g.named.lookup name

/-! ## Single arguments -/

/-- An argument up to its first equals sign, and what follows the sign. -/
def cutEquals (argument : List Char) : List Char × Option (List Char) :=
  match argument.span (· ≠ '=') with
  | (name, _ :: value) => (name, some value)
  | (name, []) => (name, none)

/-- The options that an argument can mean that is no name of an option: those whose names start
with it, and for a single dash the short option before its value. -/
def candidates (g : Grammar) (argument : List Char) : List Found :=
  if "--".toList.isPrefixOf argument then
    let (start, attached) := cutEquals argument
    g.named.filterMap fun (name, o) =>
      if start.isPrefixOf name then some ⟨o, name, attached⟩ else none
  else
    g.named.filterMap fun (name, o) =>
      if name = argument.take 2 then some ⟨o, name, some (argument.drop 2)⟩
      else if argument.isPrefixOf name then some ⟨o, name, none⟩
      else none

/-- Whether decimal digits of any script, perhaps with a point before the last of them, follow the
dash of an argument. One line feed may follow them. -/
def isNegativeNumber (argument : List Char) : Bool :=
  let body := argument.drop 1
  let body := if body.getLast? = some '\n' then body.dropLast else body
  let (whole, fraction) := body.span Text.isDecimal
  match fraction with
  | [] => !whole.isEmpty
  | '.' :: digits => !digits.isEmpty && digits.all Text.isDecimal
  | _ => false

/-- What an argument before the two dashes is. -/
def mark (g : Grammar) (argument : String) : Except Usage Mark :=
  let cs := argument.toList
  if cs.head? ≠ some '-' then .ok .word
  else
    match g.option? cs with
    | some o => .ok (.option (some ⟨o, cs, none⟩))
    | none =>
      if cs.length = 1 then .ok .word
      else
        let (name, attached) := cutEquals cs
        match attached, g.option? name with
        | some a, some o => .ok (.option (some ⟨o, name, some a⟩))
        | _, _ =>
          match g.candidates cs with
          | [found] => .ok (.option (some found))
          | [] => .ok (if isNegativeNumber cs || cs.contains ' ' then .word else .option none)
          | found => .error (.ambiguous argument (found.map fun f => String.ofList f.name))

/-- The arguments with what they are. -/
def marks (g : Grammar) : List String → Except Usage (List (String × Mark))
  | [] => .ok []
  | argument :: rest =>
    if argument = "--" then .ok ((argument, .dashes) :: rest.map fun a => (a, .word))
    else do
      let m ← g.mark argument
      return (argument, m) :: (← g.marks rest)

end Grammar

/-! ## Command lines -/

/-- The value with which an option is given. -/
inductive OptionValue where
  | text (value : String)
  | nothing
  deriving DecidableEq, Repr

/-- The value that is written as a given text. -/
def OptionValue.ofText (text : String) : OptionValue := if text = "--" then .nothing else .text text

/-- What a command line says: the flags and values that are given by the labels of their options,
the operand, and what fits nowhere. -/
structure Arguments where
  flags : List String
  values : List (String × OptionValue)
  operand : Option (List String)
  extra : List String
  deriving DecidableEq, Repr

namespace Arguments

def none : Arguments := ⟨[], [], .none, []⟩

/-- Whether a flag is given. -/
def has (a : Arguments) (o : OptionSpec) : Bool := a.flags.contains o.label

/-- The value of an option, which is the last one given. -/
def value? (a : Arguments) (o : OptionSpec) : Option OptionValue := a.values.lookup o.label

/-- What an option without a value does. -/
def take (a : Arguments) (o : OptionSpec) : Except Usage Arguments :=
  match o.kind with
  | .help => .error .help
  | _ => .ok { a with flags := o.label :: a.flags }

def set (a : Arguments) (o : OptionSpec) (text : String) : Arguments :=
  { a with values := (o.label, .ofText text) :: a.values }

def leave (a : Arguments) (extra : List String) : Arguments := { a with extra := a.extra ++ extra }

end Arguments

namespace Grammar

/-- The options that one argument gives. One that takes a value comes last, with the value if it is
attached. -/
structure Cluster where
  taken : List OptionSpec
  last : Option (OptionSpec × Option String)

/-- Takes apart an argument in which short options share a dash. What is attached to an option
without a value has to start with the letter of a further one. -/
def cluster (g : Grammar) : Nat → List OptionSpec → Found → Except Usage Cluster
  | 0, taken, _ => .ok ⟨taken, none⟩
  | fuel + 1, taken, f =>
    match f.option.kind, f.attached with
    | .value, attached => .ok ⟨taken, some (f.option, attached.map String.ofList)⟩
    | _, none => .ok ⟨taken ++ [f.option], none⟩
    | _, some [] => .error (.unexpectedValue f.option "")
    | _, some (c :: rest) =>
      let next := if "--".toList.isPrefixOf f.name then none else g.option? ['-', c]
      match next with
      | none => .error (.unexpectedValue f.option (String.ofList (c :: rest)))
      | some o =>
        let attached := if rest.isEmpty then none else some rest
        g.cluster fuel (taken ++ [f.option]) ⟨o, ['-', c], attached⟩

/-- What an argument with options gives, with the arguments behind it. -/
def takeOption (g : Grammar) (argument : String) (found : Option Found)
    (rest : List (String × Mark)) (a : Arguments) :
    Except Usage (Arguments × List (String × Mark)) :=
  match found with
  | none => .ok (a.leave [argument], rest)
  | some f => do
    let c ← g.cluster (argument.length + 1) [] f
    let taken := c.taken.foldlM (fun a o => a.take o) a
    match c.last with
    | none => return (← taken, rest)
    | some (o, some value) => return ((← taken).set o value, rest)
    | some (o, none) =>
      match rest with
      | (value, .word) :: rest => return ((← taken).set o value, rest)
      | _ => throw (.missingValue o)

/-- The operand at the front of the arguments, with what is behind it. -/
def operand? (g : Grammar) (args : List (String × Mark)) :
    Option (List String × List (String × Mark)) :=
  match args with
  | (_, .word) :: rest =>
    if g.takesRest then some (args.map Prod.fst, [])
    else
      match args, rest with
      | (word, _) :: _, (_, .dashes) :: rest => some ([word], rest)
      | (word, _) :: _, rest => some ([word], rest)
      | [], _ => none
  | (_, .dashes) :: (word, .word) :: rest =>
    if g.takesRest then some (args.map Prod.fst, []) else some ([word], rest)
  | _ => none

def isOption : String × Mark → Bool
  | (_, .option _) => true
  | _ => false

/-- Reads the arguments from left to right: the operand as soon as it is there, and options. -/
def readMarked (g : Grammar) : Nat → List (String × Mark) → Arguments → Except Usage Arguments
  | 0, _, a => .ok a
  | fuel + 1, args, a =>
    match args with
    | [] => .ok a
    | (argument, .option found) :: rest => do
      let (a, rest) ← g.takeOption argument found rest a
      g.readMarked fuel rest a
    | _ =>
      match a.operand, g.operand? args with
      | none, some (operand, rest) => g.readMarked fuel rest { a with operand := some operand }
      | _, _ =>
        let extra := args.takeWhile fun m => !isOption m
        g.readMarked fuel (args.drop extra.length) (a.leave (extra.map Prod.fst))

/-- What a command line says. -/
def read (g : Grammar) (args : List String) : Except Usage Arguments := do
  let marked ← g.marks args
  g.readMarked (marked.length + 1) marked .none

end Grammar

end DeclaredSchema.CommandLine
