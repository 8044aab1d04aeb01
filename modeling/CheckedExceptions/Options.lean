import CheckedExceptions.Policy

/-!
Option texts. An option `checked:NAME` chooses a policy, and the last such option decides; a name
that is no policy's chooses nothing. Options may carry a prefix, and those without it are ignored.
-/
namespace CheckedExceptions.Options

/-- The rest of a text after a given beginning. -/
def dropFront? (front text : String) : Option String :=
  if front.toList.isPrefixOf text.toList then
    some (String.ofList (text.toList.drop front.length))
  else none

def policyOption : String := "checked:"

/-- The options with the given prefix, without it. -/
def relevant (options : List String) (leading : String) : List String :=
  options.filterMap (dropFront? leading)

/-- The policy that the options choose. -/
def policy? (options : List String) (leading : String) : Option Policy :=
  ((relevant options leading).filterMap (dropFront? policyOption)).getLast?.bind Policy.ofName?

def policy (options : List String) (leading : String) : Policy :=
  (policy? options leading).getD .standard

/-- What is wrong with one option, if anything. -/
def problem? (option : String) : Option String :=
  match dropFront? policyOption option with
  | some value =>
    if (Policy.ofName? value).isSome then none
    else some s!"Unknown checked exception value: {value}"
  | none => some s!"Unknown option: {option}"

def problems (options : List String) (leading : String) : List String :=
  (relevant options leading).filterMap problem?

end CheckedExceptions.Options
