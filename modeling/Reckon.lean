import Reckon.Log
import Reckon.Failure.Json
import Reckon.Main
import Reckon.Proofs.Height
import Reckon.Proofs.Session
import Reckon.Proofs.Pushdown
import Reckon.Proofs.Place
import Reckon.Proofs.Render
import Reckon.Proofs.Reserved
import Reckon.Proofs.Session.State
import Reckon.Proofs.Console
import Reckon.Proofs.Spacing
import Reckon.Proofs.Completion
import Reckon.Proofs.Machine
import Reckon.Proofs.Registry
import Reckon.Proofs.Console.Dispatch
import Reckon.Proofs.Resumption
import Reckon.Proofs.Spacing.Joining
import Reckon.Proofs.Beginnings
import Reckon.Proofs.Descent
import Reckon.Proofs.Descent.Input
import Reckon.Proofs.Descent.Factor
import Reckon.Proofs.Descent.Reading
import Reckon.Proofs.Descent.Calls
import Reckon.Proofs.Descent.Progress
import Reckon.Proofs.Descent.Records
import Reckon.Proofs.Number.Layout
import Reckon.Proofs.Number.Significant
import Reckon.Proofs.Number.Steps
import Reckon.Proofs.Number.Numeral
import Reckon.Proofs.Number.Result
import Reckon.Proofs.OneShot
import Reckon.Proofs.Json
