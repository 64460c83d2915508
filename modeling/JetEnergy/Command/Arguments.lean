import JetEnergy.Decimal.Numeral

/-!
  Arguments of a command line.

  * `Rule` describes an option: its long name, perhaps a letter, and whether it
    takes a value.
  * `arguments` sorts the arguments into options and words. A value follows its
    option as the next argument, after an equals sign or right after the
    letter; letters without values can be run together; `--` ends the options.
-/
namespace JetEnergy.Command

/-- An option. -/
structure Rule where
  name : String
  letter : Option Char := none
  takesValue : Bool := true
  /-- whether a negative number can follow as the next argument -/
  canBeNegative : Bool := false
  /-- whether the option can be given more than once -/
  repeatable : Bool := false

/-- An argument that has been understood. -/
inductive Argument where
  | flag (name : String)
  | option (name value : String)
  | word (text : String)
  deriving DecidableEq, Repr

/-- What is wrong with a command line. -/
inductive UsageError where
  | noCommand
  | unknownCommand (name : String)
  | unknownOption (name : String)
  | missingValue (name : String)
  | needlessValue (name : String)
  | badValue (name value : String)
  | repeatedOption (name : String)
  | missingOption (name : String)
  | needlessWord (text : String)
  deriving DecidableEq, Repr

/-- The words for what is wrong. -/
def UsageError.message : UsageError → String
  | noCommand => "error: a command is required: correct, uncertainty, inspect or batch"
  | unknownCommand name => s!"error: unknown command '{name}'"
  | unknownOption name => s!"error: unknown option '{name}'"
  | missingValue name => s!"error: option '{name}' needs a value"
  | needlessValue name => s!"error: option '{name}' takes no value"
  | badValue name value => s!"error: invalid value '{value}' for '{name}'"
  | repeatedOption name => s!"error: option '{name}' is given more than once"
  | missingOption name => s!"error: '{name}' is required"
  | needlessWord text => s!"error: unexpected argument '{text}'"

/-- The exit code after a command line that cannot be understood. -/
def usageExitCode : Nat := 2

/-! ## Options -/

/-- What one argument stands for: itself, or with an option at its end whose
    value is the next argument. -/
structure Reading where
  arguments : List Argument
  open? : Option Rule := none

/-- An argument of the form `--name` or `--name=value`. -/
def readLong (rules : List Rule) (text : List Char) : Except UsageError Reading :=
  let name := String.ofList (text.takeWhile (· ≠ '='))
  match rules.find? (·.name == name), text.dropWhile (· ≠ '=') with
  | none, _ => .error (.unknownOption name)
  | some rule, [] => .ok (if rule.takesValue then ⟨[], some rule⟩ else ⟨[.flag name], none⟩)
  | some rule, _ :: value =>
    if rule.takesValue then .ok ⟨[.option name (String.ofList value)], none⟩
    else .error (.needlessValue name)

/-- The letters after a dash. -/
def readLetters (rules : List Rule) : List Char → Except UsageError Reading
  | [] => .ok ⟨[], none⟩
  | c :: rest =>
    match rules.find? (·.letter == some c) with
    | none => .error (.unknownOption (String.singleton c))
    | some rule =>
      if rule.takesValue then
        match rest with
        | [] => .ok ⟨[], some rule⟩
        | '=' :: value => .ok ⟨[.option rule.name (String.ofList value)], none⟩
        | value => .ok ⟨[.option rule.name (String.ofList value)], none⟩
      else (readLetters rules rest).map fun r =>
        { r with arguments := .flag rule.name :: r.arguments }

/-- What one argument stands for; a dash alone is a word. -/
def readArgument (rules : List Rule) (text : String) : Except UsageError Reading :=
  match text.toList with
  | '-' :: '-' :: name => readLong rules name
  | '-' :: c :: rest => readLetters rules (c :: rest)
  | _ => .ok ⟨[.word text], none⟩

/-- Whether an argument can be the value of an option before it. -/
def canFollow (rule : Rule) (text : String) : Bool :=
  match text.toList with
  | '-' :: c :: rest => rule.canBeNegative && (Decimal.float? ('-' :: c :: rest)).isSome
  | _ => true

/-- What the arguments stand for. -/
def arguments (rules : List Rule) : List String → Except UsageError (List Argument)
  | [] => .ok []
  | text :: rest =>
    if text = "--" then .ok (rest.map .word)
    else match readArgument rules text with
      | .error e => .error e
      | .ok ⟨found, none⟩ => (arguments rules rest).map (found ++ ·)
      | .ok ⟨found, some rule⟩ =>
        match rest with
        | [] => .error (.missingValue rule.name)
        | value :: rest =>
          if canFollow rule value then
            (arguments rules rest).map (found ++ .option rule.name value :: ·)
          else .error (.missingValue rule.name)

/-! ## Values -/

/-- Whether an argument belongs to an option. -/
def Argument.isOf (name : String) : Argument → Bool
  | flag other => other == name
  | option other _ => other == name
  | word _ => false

/-- The first option that is given more than once and must not be. -/
def repeated? (rules : List Rule) (found : List Argument) : Option Rule :=
  rules.find? fun rule => !rule.repeatable && 1 < found.countP (·.isOf rule.name)

/-- Whether a flag is given. -/
def hasFlag (found : List Argument) (name : String) : Bool :=
  found.any (·.isOf name)

/-- The values of an option, in order. -/
def valuesOf (found : List Argument) (name : String) : List String :=
  found.filterMap fun
    | .option other value => if other == name then some value else none
    | _ => none

/-- The words among the arguments. -/
def wordsOf (found : List Argument) : List String :=
  found.filterMap fun
    | .word text => some text
    | _ => none

/-- The values of an option, read. -/
def readAll {α : Type} (read : String → Option α) (found : List Argument) (name : String) :
    Except UsageError (List α) :=
  (valuesOf found name).mapM fun value =>
    match read value with
    | some a => .ok a
    | none => .error (.badValue name value)

/-- The value of an option that may be missing, read. -/
def readOption {α : Type} (read : String → Option α) (found : List Argument) (name : String) :
    Except UsageError (Option α) :=
  (readAll read found name).map List.head?

/-- The value of an option that must be given, read. -/
def readRequired {α : Type} (read : String → Option α) (found : List Argument) (name : String) :
    Except UsageError α :=
  match readOption read found name with
  | .error e => .error e
  | .ok (some a) => .ok a
  | .ok none => .error (.missingOption name)

end JetEnergy.Command
