import PortLease.CommandLine
import PortLease.Text.Numeral

/-!
Reading the arguments of the program. They are taken one by one; the first that makes no sense, or asks
for help or the version, ends the reading. Each option may be given once before the subcommand and once
behind it, where the later one counts.
-/

namespace PortLease.CommandLine

inductive Switch where
  | verbose
  | hold
  | help
  | version
  deriving DecidableEq, Repr

inductive Parameter where
  | config
  | port
  | format
  | count
  deriving DecidableEq, Repr

inductive Stage where
  | program
  | subcommand (name : Subcommand)
  | help (topic : Topic)
  deriving DecidableEq, Repr

structure Arguments where
  stage : Stage := .program
  given : List (Switch ⊕ Parameter) := []
  awaiting : Option Parameter := none
  plainOnly : Bool := false
  config : Option String := none
  verbose : Bool := false
  port : Option Port := none
  format : String := "table"
  count : Int := 1
  hold : Bool := false
  number : Option Int := none
  deriving DecidableEq, Repr

namespace Arguments

def topic (a : Arguments) : Topic :=
  match a.stage with
  | .program => .program
  | .subcommand name => .subcommand name
  | .help topic => topic

def long? (stage : Stage) (name : String) : Option (Switch ⊕ Parameter) :=
  match stage, name with
  | _, "config" => some (.inr .config)
  | _, "verbose" => some (.inl .verbose)
  | _, "help" => some (.inl .help)
  | .program, "version" => some (.inl .version)
  | .subcommand .netstat, "port" => some (.inr .port)
  | .subcommand .netstat, "format" => some (.inr .format)
  | .subcommand .reserve, "count" => some (.inr .count)
  | .subcommand .reserve, "hold" => some (.inl .hold)
  | _, _ => none

def short? (stage : Stage) (letter : Char) : Option (Switch ⊕ Parameter) :=
  match stage, letter with
  | _, 'v' => some (.inl .verbose)
  | _, 'h' => some (.inl .help)
  | .program, 'V' => some (.inl .version)
  | .subcommand .reserve, 'n' => some (.inr .count)
  | _, _ => none

def integer? (text : String) : Option Int := Text.intWithin? (Nat.pow 2 63) text.toList

def port? (text : String) : Option Port := (integer? text).bind Port.ofInt?

def give (a : Arguments) (option : Switch ⊕ Parameter) : Except Request Arguments :=
  if a.given.contains option then .error .refused else .ok { a with given := option :: a.given }

def turnOn (a : Arguments) : Switch → Except Request Arguments
  | .help => .error (.help a.topic)
  | .version => .error .version
  | .verbose => ({ a with verbose := true }).give (.inl .verbose)
  | .hold => ({ a with hold := true }).give (.inl .hold)

def refuseNone {α : Type} : Option α → Except Request α
  | some x => .ok x
  | none => .error .refused

def assign (a : Arguments) (parameter : Parameter) (value : String) : Except Request Arguments := do
  let a ← { a with awaiting := none }.give (.inr parameter)
  match parameter with
  | .config => if value.isEmpty then .error .refused else return { a with config := some value }
  | .port => return { a with port := some (← refuseNone (port? value)) }
  | .format => return { a with format := value }
  | .count => return { a with count := ← refuseNone (integer? value) }

def readLong (a : Arguments) (text : List Char) : Except Request Arguments :=
  let name := text.takeWhile (· ≠ '=')
  let value := text.dropWhile (· ≠ '=')
  match long? a.stage (String.ofList name), value with
  | some (.inl switch), [] => a.turnOn switch
  | some (.inr parameter), [] => .ok { a with awaiting := some parameter }
  | some (.inr parameter), _ :: value => a.assign parameter (String.ofList value)
  | _, _ => .error .refused

def readShort (a : Arguments) : List Char → Except Request Arguments
  | [] => .ok a
  | c :: cs =>
    match short? a.stage c, cs with
    | some (.inl switch), cs => do (← a.turnOn switch).readShort cs
    | some (.inr parameter), [] => .ok { a with awaiting := some parameter }
    | some (.inr parameter), '=' :: cs => a.assign parameter (String.ofList cs)
    | some (.inr parameter), cs => a.assign parameter (String.ofList cs)
    | none, _ => .error .refused

def isNumeral (cs : List Char) : Bool :=
  let whole := cs.takeWhile Text.isDigit
  let rest := cs.dropWhile Text.isDigit
  let rest := match whole, rest with
    | _ :: _, '.' :: rest => rest.dropWhile Text.isDigit
    | _, rest => rest
  match whole, rest with
  | _ :: _, 'e' :: digits => !digits.isEmpty && digits.all Text.isDigit
  | _, rest => rest.isEmpty

def takesNumber (a : Arguments) : Bool :=
  a.stage = .subcommand .check && a.number.isNone

def readPlain (a : Arguments) (text : String) : Except Request Arguments :=
  match a.stage with
  | .program =>
    if a.plainOnly then .error .refused
    else if text = "help" then .ok { a with stage := .help .program }
    else do
      let name ← refuseNone (subcommand? text)
      return { a with stage := .subcommand name, given := [] }
  | _ =>
    if a.takesNumber then do return { a with number := some (← refuseNone (integer? text)) }
    else .error .refused

def readTopic (a : Arguments) (topic : Topic) (text : String) : Except Request Arguments :=
  if topic ≠ .program then .error .refused
  else if text = "help" then .ok { a with stage := .help .help }
  else do return { a with stage := .help (.subcommand (← refuseNone (subcommand? text))) }

def readOption (a : Arguments) (read : Arguments → Except Request Arguments) :
    Except Request Arguments :=
  if a.awaiting.isSome then .error .refused else read a

def read (a : Arguments) (text : String) : Except Request Arguments :=
  match a.stage with
  | .help topic => a.readTopic topic text
  | _ =>
    if a.plainOnly then a.readPlain text
    else
      match text.toList with
      | ['-', '-'] => a.readOption fun a => .ok { a with plainOnly := true }
      | '-' :: '-' :: name => a.readOption (·.readLong name)
      | '-' :: c :: letters =>
        if a.takesNumber && isNumeral (c :: letters) then plain text
        else a.readOption (·.readShort (c :: letters))
      | _ => plain text
where
  plain (text : String) : Except Request Arguments :=
    match a.awaiting with
    | some parameter => a.assign parameter text
    | none => a.readPlain text

def request (a : Arguments) : Request :=
  if a.awaiting.isSome then .refused
  else
    let run := fun task => Request.run ⟨a.config, a.verbose, task⟩
    match a.stage, a.number with
    | .help topic, _ => .help topic
    | .subcommand .range, _ => run .range
    | .subcommand .netstat, _ => run (.netstat a.port a.format)
    | .subcommand .check, some number => run (.check number)
    | .subcommand .reserve, _ => run (.reserve a.count a.hold)
    | _, _ => .refused

end Arguments

def Request.ofArguments (args : List String) : Request :=
  match args.foldlM Arguments.read {} with
  | .ok a => a.request
  | .error request => request

end PortLease.CommandLine
