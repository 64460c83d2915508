import JetEnergy.Batch.Run
import JetEnergy.Command.Arguments

/-!
  The commands of the program.

      correct      one jet through a chain of correction files
      uncertainty  the uncertainty band of one jet
      inspect      what is in a file
      batch        every jet of a table

  `Command.parse` reads a command line.
-/
namespace JetEnergy

open Uncertainty Resolution

namespace Command

/-- What `correct` works with. -/
structure CorrectSettings where
  chain : List String
  uncertainty : Option String
  systematic : Systematic
  residual : Bool
  jet : Jet
  json : Bool

end Command

/-- A command. -/
inductive Command where
  | correct (settings : Command.CorrectSettings)
  | uncertainty (file : String) (jet : Jet) (json : Bool)
  /-- a correction file, or an uncertainty file if `asUncertainty` -/
  | inspect (file : String) (asUncertainty json : Bool)
  /-- the output goes to a file, or is printed if there is none -/
  | batch (settings : Batch.Settings) (output : Option String)

namespace Command

/-! ## Options -/

/-- The option for more messages. There are none, so it has no effect. -/
def verbosity : Rule :=
  { name := "verbose", letter := some 'v', takesValue := false, repeatable := true }

/-- The options for a jet. -/
def jetRules : List Rule :=
  [{ name := "pt", canBeNegative := true }, { name := "eta", canBeNegative := true },
   { name := "phi", canBeNegative := true }, { name := "area" }, { name := "rho" }]

/-- The option for the answer as JSON. -/
def jsonRule : Rule :=
  { name := "json", takesValue := false }

/-- The options for corrections. -/
def chainRules : List Rule :=
  [{ name := "jec", repeatable := true }, { name := "jeu" }, { name := "systematic" },
   { name := "extra-scale", takesValue := false }]

/-- The options of `correct`. -/
def correctRules : List Rule :=
  verbosity :: jsonRule :: chainRules ++ jetRules

/-- The options of `uncertainty`. -/
def uncertaintyRules : List Rule :=
  verbosity :: jsonRule :: { name := "jeu" } :: jetRules

/-- The options of `inspect`. -/
def inspectRules : List Rule :=
  [verbosity, jsonRule, { name := "uncertainty", takesValue := false }]

/-- The options of `batch`. -/
def batchRules : List Rule :=
  verbosity :: chainRules ++
    [{ name := "input", letter := some 'i' }, { name := "output", letter := some 'o' },
     { name := "jer-smear" }, { name := "seed" }, { name := "threads" }]

/-! ## Values of options -/

/-- A number. -/
def number? (text : String) : Option Float :=
  Decimal.float? text.toList

/-- A whole number below 2 ^ 64. -/
def whole? (text : String) : Option Nat :=
  Decimal.index? text.toList

/-- The name of a file. -/
def file? (text : String) : Option String :=
  if text.isEmpty then none else some text

/-- A systematic variation. -/
def systematic? : String → Option Systematic
  | "nominal" => some .nominal
  | "up" => some .up
  | "down" => some .down
  | _ => none

/-- A column of the scale factors. -/
def variation? : String → Option Variation
  | "nominal" => some .nominal
  | "low" => some .low
  | "high" => some .high
  | _ => none

/-- The jet that the options describe. -/
def jetOf (found : List Argument) : Except UsageError Jet := do
  let pt ← readRequired number? found "pt"
  let eta ← readRequired number? found "eta"
  let phi ← readOption number? found "phi"
  let area ← readOption number? found "area"
  let rho ← readOption number? found "rho"
  return ⟨pt, eta, phi.getD 0, area.getD 0, rho.getD 0⟩

/-- The correction files, of which there must be one. -/
def chainOf (found : List Argument) : Except UsageError (List String) :=
  match readAll file? found "jec" with
  | .error e => .error e
  | .ok [] => .error (.missingOption "jec")
  | .ok names => .ok names

/-- The systematic variation that the options ask for. -/
def systematicOf (found : List Argument) : Except UsageError Systematic :=
  (readOption systematic? found "systematic").map (·.getD .nominal)

/-- The seed if none is given. -/
def defaultSeed : Nat := 42

/-! ## Commands -/

/-- The arguments of a command by its options, none of them given too often. -/
def argumentsBy (rules : List Rule) (args : List String) :
    Except UsageError (List Argument) := do
  let found ← arguments rules args
  match repeated? rules found with
  | some rule => .error (.repeatedOption rule.name)
  | none => return found

/-- The same arguments, if there is no word among them. -/
def refuseWords (found : List Argument) : Except UsageError (List Argument) :=
  match wordsOf found with
  | [] => .ok found
  | text :: _ => .error (.needlessWord text)

/-- The arguments of `correct`. -/
def parseCorrect (args : List String) : Except UsageError Command := do
  let found ← refuseWords (← argumentsBy correctRules args)
  return .correct {
    chain := ← chainOf found
    uncertainty := ← readOption file? found "jeu"
    systematic := ← systematicOf found
    residual := hasFlag found "extra-scale"
    jet := ← jetOf found
    json := hasFlag found "json" }

/-- The arguments of `uncertainty`. -/
def parseUncertainty (args : List String) : Except UsageError Command := do
  let found ← refuseWords (← argumentsBy uncertaintyRules args)
  return .uncertainty (← readRequired file? found "jeu") (← jetOf found) (hasFlag found "json")

/-- The arguments of `inspect`. -/
def parseInspect (args : List String) : Except UsageError Command := do
  let found ← argumentsBy inspectRules args
  match wordsOf found with
  | [] => .error (.missingOption "file")
  | [name] =>
    if name.isEmpty then .error (.badValue "file" name)
    else return .inspect name (hasFlag found "uncertainty") (hasFlag found "json")
  | _ :: text :: _ => .error (.needlessWord text)

/-- The arguments of `batch`. -/
def parseBatch (args : List String) : Except UsageError Command := do
  let found ← refuseWords (← argumentsBy batchRules args)
  let settings : Batch.Settings := {
    jets := ← readRequired file? found "input"
    chain := ← chainOf found
    uncertainty := ← readOption file? found "jeu"
    systematic := ← systematicOf found
    residual := hasFlag found "extra-scale"
    smearing := ← readOption variation? found "jer-smear"
    seed := UInt64.ofNat ((← readOption whole? found "seed").getD defaultSeed)
    workers := ← readOption whole? found "threads" }
  return .batch settings (← readOption file? found "output")

/-- Whether an argument before the command asks for more messages. -/
def isVerbosity (text : String) : Bool :=
  match readArgument [verbosity] text with
  | .ok ⟨.flag _ :: _, _⟩ => true
  | _ => false

/-- The command of a command line. -/
def parse : List String → Except UsageError Command
  | [] => .error .noCommand
  | "correct" :: args => parseCorrect args
  | "uncertainty" :: args => parseUncertainty args
  | "inspect" :: args => parseInspect args
  | "batch" :: args => parseBatch args
  | text :: args => if isVerbosity text then parse args else .error (.unknownCommand text)

end Command

end JetEnergy
