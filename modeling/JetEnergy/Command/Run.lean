import JetEnergy.Batch.Export
import JetEnergy.Command.Basic
import JetEnergy.Report.Batch
import JetEnergy.Report.Jet
import JetEnergy.Report.Json
import JetEnergy.Report.Table

/-!
  Running a command.

  * `Command.run` gives the response of a command in a directory: what it
    prints, what it says about its success, and the directory afterwards.
  * Only a batch with an output file changes the directory, and it does so
    after all else has succeeded.
-/
namespace JetEnergy.Command

open Correction Uncertainty

/-- What a command leaves behind. -/
structure Response where
  exitCode : Nat := 0
  output : String := ""
  /-- what goes beside the output: reports on batches and failures -/
  messages : String := ""
  directory : Directory

/-- The response that ends with a failure. -/
def Response.fail (r : Response) (f : Failure) : Response :=
  { r with exitCode := f.exitCode, messages := r.messages ++ f.message ++ "\n" }

/-- The response that ends with a failure, if there is one. -/
def Response.failIf (r : Response) : Option Failure → Response
  | some f => r.fail f
  | none => r

/-- A JSON value as output. -/
def printed (j : Json) : String :=
  j.render ++ "\n"

/-- The verdict of `correct`. -/
def CorrectSettings.verdict (s : CorrectSettings) (d : Directory) :
    Except (Stop Failure) Verdict := do
  let chain ← Stop.ofLoad (Chain.load d s.chain)
  let table ← Table.loadFor d s.systematic s.uncertainty
  let scale ← Stop.ofFailure (Scale.residualIf s.residual)
  Stop.ofHalt (Verdict.reach chain scale table s.systematic s.jet)

/-- Why a verdict is a failure. -/
def failureOf (v : Verdict) : Option Failure :=
  if v.correctedPt.isSome then none else some (.notCorrected v.passage.outcome.label)

/-- The response to `correct`: the verdict, good or bad, and then the failure. -/
def correctResponse (s : CorrectSettings) (d : Directory) : Except (Stop Failure) Response := do
  let v ← s.verdict d
  let output := if s.json then printed (Report.verdictJson v) else Report.verdict v
  return ({ output, directory := d } : Response).failIf (failureOf v)

/-- The response to `uncertainty`. -/
def uncertaintyResponse (file : String) (jet : Jet) (json : Bool) (d : Directory) :
    Except (Stop Failure) Response := do
  let table ← Uncertainty.Table.load d file
  let result ← Stop.ofHalt (table.band jet)
  let output := if json then printed (Report.jetBandJson jet result) else Report.bandLine result
  let failure := if result.band?.isSome then none else some Failure.noBand
  return ({ output, directory := d } : Response).failIf failure

/-- The response to `inspect`. -/
def inspectResponse (file : String) (asUncertainty json : Bool) (d : Directory) :
    Except (Stop Failure) Response := do
  if asUncertainty then
    let table ← Uncertainty.Table.load d file
    let output :=
      if json then printed (Report.uncertaintyTableJson table) else Report.uncertaintyTable table
    return { output, directory := d }
  else
    let table ← Stop.ofLoad (Correction.Table.load d file)
    let output :=
      if json then printed (Report.correctionTableJson table) else Report.correctionTable table
    return { output, directory := d }

/-- The response to `batch`. -/
def batchResponse (settings : Batch.Settings) (target : Option String)
    (draw : Resolution.Draw) (d : Directory) : Except (Stop Failure) Response := do
  let run ← settings.run draw d
  let table := Batch.exportRows run.rows
  let messages := Report.batch run.rows run.ingested.rowsRead run.ingested.rejected
  match target with
  | none => return { output := table, messages, directory := d }
  | some name =>
    match d.write name table.toUTF8.toList with
    | .error e => .error (.failure (.outputRefused name e))
    | .ok after => return { messages, directory := after }

/-- The response to a command, unless it stops. -/
def respond (draw : Resolution.Draw) (d : Directory) : Command → Except (Stop Failure) Response
  | .correct settings => correctResponse settings d
  | .uncertainty file jet json => uncertaintyResponse file jet json d
  | .inspect file asUncertainty json => inspectResponse file asUncertainty json d
  | .batch settings target => batchResponse settings target draw d

/-- Runs a command in a directory. A failure leaves the directory as it is;
    `draw` is the source of smearing factors. -/
def run (c : Command) (draw : Resolution.Draw) (d : Directory) : Except Halt Response :=
  match c.respond draw d with
  | .ok r => .ok r
  | .error (.failure f) => .ok (({ directory := d } : Response).fail f)
  | .error (.halt h) => .error h

end JetEnergy.Command
