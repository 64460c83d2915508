import JetEnergy.Formula.Token
import JetEnergy.Outcome

/-!
  Why loading a file or a whole run fails.

  * `AccessError` is what the file system refuses.
  * `LoadError` is a correction or uncertainty file that cannot be used.
  * `Failure` is what ends a run, with its exit code and its message.
  * `Stop` is a failure of some kind or a `Halt`, which has neither.
  * `errorOf?` is what a step fails with.
-/
namespace JetEnergy

/-- What the file system refuses. -/
inductive AccessError where
  | notFound
  | notADirectory
  | isADirectory
  | nameTooLong
  /-- a name with a character that no name can hold -/
  | nulInName
  deriving DecidableEq, Repr

/-- The words for a refusal. -/
def AccessError.message : AccessError → String
  | notFound => "No such file or directory (os error 2)"
  | notADirectory => "Not a directory (os error 20)"
  | isADirectory => "Is a directory (os error 21)"
  | nameTooLong => "File name too long (os error 36)"
  | nulInName => "file name contained an unexpected NUL byte"

/-- Why a table cannot be loaded. -/
inductive LoadError where
  | unreadable (source : String) (error : AccessError)
  /-- the formula of the row on line `line`, which would be entry `entry` -/
  | badFormula (source : String) (line entry : Nat) (formula : String)
      (error : Formula.FormulaError)
  | emptyChain
  deriving Repr

/-- The words for a failed load. -/
def LoadError.message : LoadError → String
  | unreadable source error => s!"failed to read '{source}': {error.message}"
  | badFormula source line entry formula error =>
    s!"formula '{formula}' on line {line} (record {entry}) of '{source}' does not compile: " ++
      error.message
  | emptyChain => "a correction chain needs at least one file"

/-- Why a run fails. -/
inductive Failure where
  | load (error : LoadError)
  /-- a shift is asked for, but no uncertainty file is given -/
  | shiftWithoutBand
  | jetsUnreadable (source : String) (error : AccessError)
  /-- the header of the jets is not text -/
  | headerUnreadable (reason : String)
  | missingColumn (name : String)
  | noJets
  | residualScale (error : Formula.FormulaError)
  | notCorrected (label : String)
  | noBand
  | outputRefused (target : String) (error : AccessError)
  deriving Repr

namespace Failure

/-- What is wrong with the input exits with 2, what goes wrong later with 4. -/
def exitCode : Failure → Nat
  | load _ | shiftWithoutBand | jetsUnreadable _ _ | headerUnreadable _ | missingColumn _
  | noJets => 2
  | residualScale _ | notCorrected _ | noBand | outputRefused _ _ => 4

/-- The words for a failure. -/
def message : Failure → String
  | load error => error.message
  | shiftWithoutBand => "`--systematic up|down` requires `--jeu <FILE>`."
  | jetsUnreadable source error => s!"Failed to open jet CSV '{source}': {error.message}"
  | headerUnreadable reason => s!"Failed to read CSV headers: {reason}"
  | missingColumn name => s!"Missing required column: `{name}`"
  | noJets => "No valid jet rows in the input CSV."
  | residualScale error => s!"Failed to compile the residual scale: {error.message}"
  | notCorrected label => s!"Correction failed: {label}"
  | noBand => "No uncertainty band for this jet."
  | outputRefused target error => s!"Failed to create output CSV '{target}': {error.message}"

end Failure

/-- What keeps a file from its table, or a run from its answer: a failure of its
    own kind, or a halt. -/
inductive Stop (ε : Type) where
  | failure (e : ε)
  | halt (h : Halt)
  deriving Repr

namespace Stop

variable {α ε : Type}

/-- A failed load as a failure of the run. -/
def inRun : Stop LoadError → Stop Failure
  | failure e => failure (.load e)
  | halt h => halt h

/-- A result that can only halt, among results that can also fail. -/
def ofHalt (r : Except Halt α) : Except (Stop ε) α :=
  r.mapError halt

/-- A result that can only fail, among results that can also halt. -/
def ofFailure (r : Except ε α) : Except (Stop ε) α :=
  r.mapError failure

/-- The result of a load, among the results of a run. -/
def ofLoad (r : Except (Stop LoadError) α) : Except (Stop Failure) α :=
  r.mapError inRun

end Stop

/-- What a step fails with, if it fails. -/
def errorOf? {α ε : Type} : Except ε α → Option ε
  | .error e => some e
  | .ok _ => none

end JetEnergy
