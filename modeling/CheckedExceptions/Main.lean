import CheckedExceptions.CommandLine.Session

/-!
The program. It reads the requested files, carries out the command line, and writes what comes out.
-/
namespace CheckedExceptions.CommandLine

def policyVariable : String := "THROWFLOW_CHECKED"

def usageText : String :=
  "usage: throwflow [-h] [-v] check [-h] [--checked CHECKED] [-P OPTION] [--json] source ..."

/-- Below a file nothing can be opened, and then the error names the path. A directory can be opened
but not read. -/
def ReadFailure.ofError : IO.Error → ReadFailure
  | .noFileOrDirectory .. => .notFound
  | .inappropriateType (some _) .. => .notDirectory
  | .inappropriateType .. => .isDirectory
  | e => .other (toString e)

def readSource (path : String) : IO (String × Except ReadFailure String) := do
  try
    return (path, .ok (← IO.FS.readFile (normalPath path)))
  catch e => return (path, .error (.ofError e))

def finish : Ending → IO UInt32
  | .help => do
    IO.println usageText
    return 0
  | .usage program message => do
    IO.eprintln usageText
    IO.eprintln s!"{program}: error: {message}"
    return 2
  | .noCommand => do
    IO.eprintln usageText
    return 2
  | .fault e => do
    IO.eprintln s!"throwflow: {e.message}"
    return 1
  | .output o => do
    IO.eprint o.stderr
    IO.print o.stdout
    return o.exitCode.toUInt32

/-- Reads the files, carries out the command line and writes its output. -/
def program (words : List String) : IO UInt32 := do
  let environment ← IO.getEnv policyVariable
  let files ← (requestedFiles environment words).mapM readSource
  finish (run environment words fun path => (files.lookup path).getD (.error .notFound))

end CheckedExceptions.CommandLine

def main (words : List String) : IO UInt32 := CheckedExceptions.CommandLine.program words
