import CheckedExceptions.CommandLine.Arguments
import CheckedExceptions.CommandLine.Files
import CheckedExceptions.CommandLine.Log
import CheckedExceptions.CommandLine.Report
import CheckedExceptions.Options
import CheckedExceptions.Typing.Program

/-!
What the program does with a command line: it checks each file on its own under one policy, and
shows the log, then the diagnostics of all files.
-/
namespace CheckedExceptions.CommandLine

/-- Log lines and diagnostics in the order in which they arise. -/
structure Result where
  log : List LogLine := []
  diagnostics : List Diagnostic := []

namespace Result

def append (a b : Result) : Result := ⟨a.log ++ b.log, a.diagnostics ++ b.diagnostics⟩

def ofDiagnostic (d : Diagnostic) : Result := { diagnostics := [d] }

end Result

def parserDiagnostic (code : Option String) (message : String) (span : Span) : Diagnostic :=
  { message, code, phase := some "parser", span }

def syntaxDiagnostic (file : String) (e : Language.SyntaxError) : Diagnostic :=
  let span : Span :=
    { file := some file, line := some e.position.line, column := some e.position.column }
  parserDiagnostic (some "SYNTAX") e.message span

/-- A request cannot be carried out if an option was given without a text, if the policy was given
without a name and no option names one, if a path has a zero character, which no file can have, or
if a file cannot be checked and no fault of its program is the cause. -/
inductive RequestFault
  | emptyOption | noPolicy | zeroInPath
  | untyped (e : Typing.Error)
  | unchecked (e : CheckError)
deriving DecidableEq, Repr

def RequestFault.message : RequestFault → String
  | emptyOption => "an option has no text"
  | noPolicy => "no policy is named"
  | zeroInPath => "a path has a zero character"
  | untyped (.tooManyDigits count) => s!"a number has too many digits: {count}"
  | untyped _ => "a file cannot be typed"
  | unchecked _ => "a file cannot be checked"

def loadedLine (file : String) (program : TypedProgram) : LogLine :=
  let d := program.declarations
  ⟨.debug, "throwflow.frontend.lower",
    s!"lowered {file}: {d.functions.length} function(s), {d.classes.length} class(es), " ++
      s!"{program.overrides.size} override link(s)"⟩

/-- Checks the text of a file against the builtin types. -/
def textResult (policy : Policy) (file source : String) : Except RequestFault Result :=
  match (load .builtin (some file) source).1 with
  | .error (.syntactic e) => .ok (.ofDiagnostic (syntaxDiagnostic file e))
  | .error (.typing (.program cause span)) =>
    .ok (.ofDiagnostic (parserDiagnostic (some "FRONTEND") cause.message span))
  | .error (.typing e) => .error (.untyped e)
  | .ok program =>
    match program.check policy with
    | .error e => .error (.unchecked e)
    | .ok verdict =>
      let loaded := loadedLine file program
      let count := verdict.findings.length
      let done : List LogLine :=
        [ ⟨.info, "throwflow.validator",
            s!"exception check ({policy.name}): {count} finding(s)"⟩,
          ⟨.info, "throwflow.driver", s!"{file}: {count} finding(s)"⟩ ]
      .ok ⟨loaded :: verdict.events.map LogLine.ofEvent ++ done, diagnostics verdict.findings⟩

/-- Checks a file that was read, or reports that it could not be. -/
def fileResult (policy : Policy) (file : String) :
    Except ReadFailure String → Except RequestFault Result
  | .error e =>
    .ok (.ofDiagnostic
      (parserDiagnostic none ("cannot read file: " ++ e.message) { file := some file }))
  | .ok text => textResult policy file (String.ofList (unifyLineEnds text.toList))

/-- What the program writes, and its exit code. -/
structure Output where
  exitCode : Nat
  stdout : String
  stderr : String
deriving DecidableEq, Repr

def optionDiagnostic (message : String) : Diagnostic :=
  { message, code := some "OPTION", phase := some "options" }

/-- Checks files one after the other, and appends what they give to a result. -/
def checkFiles (policy : Policy) (read : String → Except ReadFailure String) :
    Result → List String → Except RequestFault Result
  | result, [] => .ok result
  | result, path :: paths => do
    if '\x00' ∈ path.toList then .error .zeroInPath
    let next ← fileResult policy (normalPath path) (read path)
    checkFiles policy read (result.append next) paths

/-- Options that are wrong are reported instead of a check. An option that names a policy wins over
the policy of the switch. -/
def CheckRequest.result (request : CheckRequest) (policy : Option Policy)
    (read : String → Except ReadFailure String) : Except RequestFault Result :=
  match request.plugins.mapM id with
  | none => .error .emptyOption
  | some options =>
    match Options.problems options "", Options.policy? options "" <|> policy with
    | [], some policy =>
      let start : Result :=
        { log := [⟨.debug, "throwflow.driver", s!"checked exception config: {policy.name}"⟩] }
      checkFiles policy read start request.sources
    | [], none => .error .noPolicy
    | problems, _ => .ok { diagnostics := problems.map optionDiagnostic }

def textLines (lines : List String) : String := String.join (lines.map (· ++ "\n"))

/-- The log goes to the error stream before the diagnostics, which go there too unless they are
asked for as JSON. -/
def Result.output (result : Result) (verbosity : Nat) (json : Bool) : Output :=
  let log := (result.log.filter (·.isShown verbosity)).map LogLine.render
  let ds := result.diagnostics
  if json then ⟨exitCode ds, textLines [jsonReport ds], textLines log⟩
  else ⟨exitCode ds, "", textLines (log ++ textReport ds)⟩

/-- How a command line ends. -/
inductive Ending
  | help
  | usage (program message : String)
  | noCommand
  | fault (e : RequestFault)
  | output (o : Output)
deriving DecidableEq, Repr

/-- The policy that holds if neither the words nor the environment name one. -/
def defaultPolicyName (environment : Option String) : String :=
  environment.getD Policy.standard.name

/-- The files that a command line asks to check. -/
def requestedFiles (environment : Option String) (words : List String) : List String :=
  match Arguments.read (defaultPolicyName environment) words with
  | .ok { command := some (request, _), .. } => request.sources
  | _ => []

/-- Carries out a command line, with the policy named by the environment if there is one. -/
def run (environment : Option String) (words : List String)
    (read : String → Except ReadFailure String) : Ending :=
  match Arguments.read (defaultPolicyName environment) words with
  | .error .help => .help
  | .error (.usage program message) => .usage program message
  | .ok arguments =>
    match arguments.command with
    | none => .noCommand
    | some (request, policy) =>
      match request.result policy read with
      | .error e => .fault e
      | .ok result => .output (result.output arguments.verbosity request.json)

end CheckedExceptions.CommandLine
