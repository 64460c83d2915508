import JetEnergy.Text.Blank
import JetEnergy.Text.Lines
import JetEnergy.Text.Utf8
import JetEnergy.Decimal.Numeral
import JetEnergy.Decimal.Binary
import JetEnergy.Decimal.Digits
import JetEnergy.Decimal.Style
import JetEnergy.Decimal.Positions
import JetEnergy.Json
import JetEnergy.Csv.Reader
import JetEnergy.Csv.Writer
import JetEnergy.Jet
import JetEnergy.Window
import JetEnergy.Outcome
import JetEnergy.Formula.Token
import JetEnergy.Formula.Lexer
import JetEnergy.Formula.Expr
import JetEnergy.Formula.Function
import JetEnergy.Formula.Parser
import JetEnergy.Formula.Program
import JetEnergy.Formula.Compile
import JetEnergy.Formula.Positions
import JetEnergy.Failure
import JetEnergy.TableFile.Line
import JetEnergy.TableFile.Heading
import JetEnergy.TableFile.Scan
import JetEnergy.TableFile.Positions
import JetEnergy.Correction.Entry
import JetEnergy.Correction.Table
import JetEnergy.Correction.Positions
import JetEnergy.Correction.Chain
import JetEnergy.Correction.Scale
import JetEnergy.Uncertainty.Band
import JetEnergy.Uncertainty.Table
import JetEnergy.Uncertainty.Positions
import JetEnergy.Resolution
import JetEnergy.Resolution.Draw
import JetEnergy.Directory
import JetEnergy.Loading
import JetEnergy.Verdict
import JetEnergy.Batch.Row
import JetEnergy.Batch.Ingest
import JetEnergy.Batch.Pipeline
import JetEnergy.Batch.Run
import JetEnergy.Batch.Export
import JetEnergy.Report.Table
import JetEnergy.Report.Jet
import JetEnergy.Report.Batch
import JetEnergy.Report.Json
import JetEnergy.Command.Arguments
import JetEnergy.Command.Basic
import JetEnergy.Command.Run
import JetEnergy.Main
import JetEnergy.Proofs.Results
import JetEnergy.Proofs.Lists
import JetEnergy.Proofs.Text.Splitting
import JetEnergy.Proofs.Decimal.Numbers
import JetEnergy.Proofs.Decimal.Numerals
import JetEnergy.Proofs.Formula.Grammar
import JetEnergy.Proofs.Formula.Parsing
import JetEnergy.Proofs.Formula.Execution
import JetEnergy.Proofs.Formula.Lexing
import JetEnergy.Proofs.Formula.Lexemes
import JetEnergy.Proofs.Formula.Tokenizing
import JetEnergy.Proofs.Formula.Transport
import JetEnergy.Proofs.Formula.Variables
import JetEnergy.Proofs.Formula.Support
import JetEnergy.Proofs.Formula.FoldedText
import JetEnergy.Proofs.Formula.Folding
import JetEnergy.Proofs.Correction.Entries
import JetEnergy.Proofs.TableFile.Scanning
import JetEnergy.Proofs.TableFile.Accesses
import JetEnergy.Proofs.TableFile.Appending
import JetEnergy.Proofs.Correction.Reading
import JetEnergy.Proofs.Uncertainty.Reading
import JetEnergy.Proofs.TableFile.Tallying
import JetEnergy.Proofs.Correction.Appending
import JetEnergy.Proofs.Correction.Accesses
import JetEnergy.Proofs.TableFile.Rendering
import JetEnergy.Proofs.TableFile.Blocks
import JetEnergy.Proofs.Correction.Rendering
import JetEnergy.Proofs.Uncertainty.Rendering
import JetEnergy.Proofs.Correction.Chains
import JetEnergy.Proofs.Batch.Workers
import JetEnergy.Proofs.Decimal.Doubles
import JetEnergy.Proofs.Uncertainty.Accesses
import JetEnergy.Proofs.Uncertainty.Segments
import JetEnergy.Proofs.Uncertainty.Polylines
import JetEnergy.Proofs.Batch.Halting
import JetEnergy.Proofs.Batch.Loading
import JetEnergy.Proofs.Batch.OutputRows
import JetEnergy.Proofs.Batch.SingleJets
import JetEnergy.Proofs.Batch.Ingesting
import JetEnergy.Proofs.Batch.Accounting
import JetEnergy.Proofs.Directory
import JetEnergy.Proofs.Command.BatchRuns
import JetEnergy.Proofs.TableFile.Spacing
import JetEnergy.Proofs.Decimal.Rounding
import JetEnergy.Proofs.Decimal.Scientific
import JetEnergy.Proofs.Decimal.PrefixLength
import JetEnergy.Proofs.Decimal.LeadingNumerals
import JetEnergy.Proofs.Windows
import JetEnergy.Proofs.Batch.Columns
import JetEnergy.Proofs.Csv.Lines
import JetEnergy.Proofs.Batch.Numbering
import JetEnergy.Proofs.Formula.Accesses
import JetEnergy.Proofs.Formula.Failures
import JetEnergy.Proofs.Resolution
import JetEnergy.Proofs.Text.Bytes
import JetEnergy.Proofs.Csv.Writing
import JetEnergy.Proofs.Batch.Exporting
