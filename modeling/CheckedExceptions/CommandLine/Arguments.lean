import CheckedExceptions.CommandLine.Words
import CheckedExceptions.Policy

/-!
The arguments of the program. Switches and arguments are acted on in the order of the words, so the
first fault decides. The first word that is an argument names the command, and all words after it
belong to that command.
-/
namespace CheckedExceptions.CommandLine

/-- Reading ends early when help is asked for, or with a message about wrong usage. -/
inductive Halt
  | help
  | usage (program message : String)
deriving DecidableEq, Repr

/-- How the words of a command line are acted on: its switches, how many words from an argument on
are its positional arguments, and what is done with either. -/
structure Reader (σ : Type) where
  program : String
  switches : List Switch
  span : List Word → Nat
  onUse : σ → Use → Except Halt σ
  onArguments : σ → List String → Except Halt σ

namespace Reader

variable {σ : Type} (r : Reader σ)

def fault {α : Type} (message : String) : Except Halt α := .error (.usage r.program message)

def useAll : σ → List Use → Except Halt σ
  | state, [] => .ok state
  | state, u :: us => do useAll (← r.onUse state u) us

/-- The number of words that are positional arguments here; only one row of them is. -/
def spanHere (pending : Bool) (words : List (String × Word)) : Nat :=
  if pending then r.span (words.map (·.2)) else 0

/-- Acts on words until none are left, and collects those that mean nothing. Every step removes a
word, so `fuel` is the number of words. -/
def act : Nat → σ → Bool → List (String × Word) → List String → Except Halt (σ × List String)
  | 0, state, _, _, extras => .ok (state, extras)
  | fuel + 1, state, pending, words, extras =>
    match words with
    | [] => .ok (state, extras)
    | (text, .unknownSwitch) :: rest => act fuel state pending rest (extras ++ [text])
    | (_, .switch s name joined) :: rest =>
      match useSwitch r.switches s name joined rest with
      | .error message => r.fault message
      | .ok (uses, rest) => do act fuel (← r.useAll state uses) pending rest extras
    | words =>
      match r.spanHere pending words with
      | 0 =>
        let (skipped, rest) := words.span (!·.2.isSwitch)
        act fuel state pending rest (extras ++ skipped.map (·.1))
      | n => do
        act fuel (← r.onArguments state ((words.take n).map (·.1))) false (words.drop n) extras

def read (state : σ) (words : List String) : Except Halt (σ × List String) :=
  match classifyAll r.switches words with
  | .error message => r.fault message
  | .ok words => r.act words.length state true words []

end Reader

def helpSwitch : Switch := ⟨.help, ["-h", "--help"], false⟩

/-- The number of separators in front. -/
def leadingSeparators : List Word → Nat
  | .separator :: words => leadingSeparators words + 1
  | _ => 0

/-- What the `check` command is asked to do. Both the policy and the options may be given without a
value. -/
structure CheckRequest where
  sources : List String := []
  checked : Option (Option Policy) := none
  plugins : List (Option String) := []
  json : Bool := false
deriving DecidableEq, Repr

def checkedSwitch : Switch := ⟨.checked, ["--checked"], true⟩

def readPolicy (name : String) : Except Halt Policy :=
  match Policy.ofName? name with
  | some p => .ok p
  | none => .error (.usage "throwflow check" (checkedSwitch.fault (Policy.unknownMessage name)))

/-- The sources are one row of arguments without switches between them; one separator among them
is dropped. -/
def checkReader : Reader CheckRequest where
  program := "throwflow check"
  switches :=
    [ helpSwitch, checkedSwitch, ⟨.plugin, ["-P"], true⟩, ⟨.json, ["--json"], false⟩ ]
  span words :=
    let n := leadingSeparators words
    match words.drop n with
    | .argument :: rest => n + 1 + (rest.takeWhile (!·.isSwitch)).length
    | _ => 0
  onUse state u :=
    match u.switch.flag, u.value with
    | .help, _ => .error .help
    | .checked, some value => do return { state with checked := some (some (← readPolicy value)) }
    | .checked, none => .ok { state with checked := some none }
    | .plugin, value => .ok { state with plugins := state.plugins ++ [value] }
    | .json, _ => .ok { state with json := true }
    | .verbose, _ => .ok state
  onArguments state words := .ok { state with sources := words.erase "--" }

/-- Reads the words of the `check` command. Without a switch for it, the policy is the one named by
the environment. -/
def readCheck (default : String) (words : List String) :
    Except Halt (CheckRequest × Option Policy × List String) := do
  let (request, extras) ← checkReader.read {} words
  let policy ← match request.checked with
    | some chosen => pure chosen
    | none => some <$> readPolicy default
  if request.sources.isEmpty then
    checkReader.fault "the following arguments are required: source"
  return (request, policy, extras)

/-- The whole command line: how much to log, and the command if there is one. -/
structure Arguments where
  verbosity : Nat := 0
  command : Option (CheckRequest × Option Policy) := none
  extras : List String := []
deriving DecidableEq, Repr

def mainReader (default : String) : Reader Arguments where
  program := "throwflow"
  switches := [helpSwitch, ⟨.verbose, ["-v", "--verbose"], false⟩]
  span words :=
    match words.drop (leadingSeparators words) with
    | .argument :: _ => words.length
    | _ => 0
  onUse state u :=
    match u.switch.flag with
    | .help => .error .help
    | .verbose => .ok { state with verbosity := state.verbosity + 1 }
    | _ => .ok state
  onArguments state words :=
    match words with
    | "check" :: rest => do
      let (request, policy, extras) ← readCheck default rest
      return { state with command := some (request, policy), extras }
    | word :: _ =>
      let shown := Text.quoted word
      .error (.usage "throwflow"
        s!"argument command: invalid choice: {shown} (choose from 'check')")
    | [] => .ok state

/-- Reads a command line. Words that mean nothing are at fault in the end, first those before the
command. -/
def Arguments.read (default : String) (words : List String) : Except Halt Arguments := do
  let r := mainReader default
  let (arguments, extras) ← r.read {} words
  match extras ++ arguments.extras with
  | [] => return arguments
  | unknown => r.fault ("unrecognized arguments: " ++ " ".intercalate unknown)

end CheckedExceptions.CommandLine
