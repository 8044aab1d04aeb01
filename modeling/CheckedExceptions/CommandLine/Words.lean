import CheckedExceptions.Text.Rendering

/-!
Reading the words of a command line against a set of switches. A word is a switch, an argument, or
the separator `--`, after which all words are arguments. Long switches may be shortened while they
stay unambiguous, and one-letter switches may be joined with each other and with a value.
-/
namespace CheckedExceptions.CommandLine

inductive Flag
  | help | verbose | checked | plugin | json
deriving DecidableEq, Repr

structure Switch where
  flag : Flag
  names : List String
  takesValue : Bool
deriving DecidableEq, Repr

/-- A switch may have text joined to its name, after an equals sign or directly. -/
inductive Word
  | argument
  | separator
  | switch (s : Switch) (name : String) (joined : Option (List Char))
  | unknownSwitch
deriving DecidableEq, Repr

def Word.isSwitch : Word → Bool
  | switch .. | unknownSwitch => true
  | argument | separator => false

def findSwitch (switches : List Switch) (name : String) : Option Switch :=
  switches.find? fun s => name ∈ s.names

/-- The text before the first equals sign, and what follows it if there is one. -/
def splitEquals (cs : List Char) : List Char × Option (List Char) :=
  match cs.dropWhile (· ≠ '=') with
  | [] => (cs, none)
  | _ :: value => (cs.takeWhile (· ≠ '='), some value)

/-- A minus sign and digits, with a point among them at most before the last one. A line feed at
the end does not matter. -/
def isNegativeNumber (cs : List Char) : Bool :=
  let cs := if cs.getLast? = some '\n' then cs.dropLast else cs
  match cs with
  | '-' :: number =>
    match number.dropWhile Text.isDigit with
    | [] => !number.isEmpty
    | '.' :: decimals => !decimals.isEmpty && decimals.all Text.isDigit
    | _ => false
  | _ => false

/-- The switches that a shortened or joined word can mean, each with its full name. -/
def readings (switches : List Switch) (word : List Char) :
    List (Switch × String × Option (List Char)) :=
  let named := switches.flatMap fun s => s.names.map fun name => (s, name)
  match word with
  | '-' :: '-' :: _ =>
    let (front, value) := splitEquals word
    named.filterMap fun (s, name) =>
      if front.isPrefixOf name.toList then some (s, name, value) else none
  | _ =>
    named.filterMap fun (s, name) =>
      if name.toList = word.take 2 then some (s, name, some (word.drop 2))
      else if word.isPrefixOf name.toList then some (s, name, none)
      else none

/-- A word that begins with a minus sign is a switch if it can be read as exactly one; it is at
fault if it can be read as several. Negative numbers and words with a blank are arguments. -/
def classifySwitch (switches : List Switch) (word : String) : Except String Word :=
  let cs := word.toList
  let (front, value) := splitEquals cs
  match findSwitch switches word, value.bind fun _ => findSwitch switches (String.ofList front) with
  | some s, _ => .ok (.switch s word none)
  | none, some s => .ok (.switch s (String.ofList front) value)
  | none, none =>
    if cs.length ≤ 1 then .ok .argument
    else
      match readings switches cs with
      | [(s, name, joined)] => .ok (.switch s name joined)
      | [] =>
        if isNegativeNumber cs || ' ' ∈ cs then .ok .argument else .ok .unknownSwitch
      | several =>
        let names := ", ".intercalate (several.map fun (_, name, _) => name)
        .error s!"ambiguous option: {word} could match {names}"

def classify (switches : List Switch) (word : String) : Except String Word :=
  if word.toList.head? = some '-' then classifySwitch switches word else .ok .argument

/-- Classifies the words of a command line in order. -/
def classifyAll (switches : List Switch) : List String → Except String (List (String × Word))
  | [] => .ok []
  | "--" :: words => .ok (("--", .separator) :: words.map fun w => (w, .argument))
  | w :: words => do return (w, ← classify switches w) :: (← classifyAll switches words)

/-- A switch with the value that was given to it, if any. -/
structure Use where
  switch : Switch
  value : Option String
deriving DecidableEq, Repr

/-- A use with a text for a value. The separator is not a value, not even joined to a switch. -/
def Use.withText (s : Switch) (text : List Char) : Use :=
  ⟨s, (some (String.ofList text)).filter (· ≠ "--")⟩

def Switch.fault (s : Switch) (message : String) : String :=
  "argument " ++ "/".intercalate s.names ++ ": " ++ message

def Switch.ignored (s : Switch) (text : List Char) : String :=
  s.fault ("ignored explicit argument " ++ Text.quoted (String.ofList text))

/-- Joined text read as more switches, and a last one whose value is still to come. -/
structure Unjoined where
  uses : List Use := []
  last : Option Switch := none

/-- What was read after a switch without a value. -/
def Unjoined.after (u : Unjoined) (s : Switch) : Unjoined := { u with uses := ⟨s, none⟩ :: u.uses }

/-- Reads the text joined to a switch: its value if it takes one, else more switches, a letter each.
Only a switch with a short name can be followed by others. -/
def unjoin (switches : List Switch) (s : Switch) (isLong : Bool) :
    List Char → Except String Unjoined
  | [] => if s.takesValue then .ok { uses := [.withText s []] } else .error (s.ignored [])
  | c :: rest =>
    if s.takesValue then .ok { uses := [.withText s (c :: rest)] }
    else if isLong then .error (s.ignored (c :: rest))
    else
      match findSwitch switches (String.ofList ['-', c]), rest with
      | none, _ => .error (s.ignored (c :: rest))
      | some next, [] => .ok { uses := [⟨s, none⟩], last := some next }
      | some next, d :: more => (unjoin switches next false (d :: more)).map (·.after s)

/-- The uses of switches in one word, and the words left after those that serve as their values. -/
def useSwitch (switches : List Switch) (s : Switch) (name : String) (joined : Option (List Char))
    (rest : List (String × Word)) : Except String (List Use × List (String × Word)) := do
  let isLong := (name.toList.drop 1).head? = some '-'
  let u ← match joined with
    | some text => unjoin switches s isLong text
    | none => pure { last := some s }
  match u.last with
  | none => return (u.uses, rest)
  | some t =>
    if t.takesValue then
      match rest with
      | (value, .argument) :: rest => return (u.uses ++ [.withText t value.toList], rest)
      | _ => throw (t.fault "expected one argument")
    else return (u.uses ++ [⟨t, none⟩], rest)

end CheckedExceptions.CommandLine
