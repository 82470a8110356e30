import StepScript.Main
import StepScript.Proofs.Run.Congruence
import StepScript.Proofs.Run.Accounting
import StepScript.Proofs.Run.Keeping
import StepScript.Proofs.Run.Approximation
import StepScript.Proofs.Run.Termination
import StepScript.Proofs.Run.Ending
import StepScript.Proofs.Run.Gathering
import StepScript.Proofs.Run.Outcome
import StepScript.Proofs.Run.Reporting
import StepScript.Proofs.Run.Starting
import StepScript.Proofs.Run.Inside
import StepScript.Proofs.Run.Turns
import StepScript.Proofs.Run.BaseNumber
import StepScript.Proofs.Run.Likeness
import StepScript.Proofs.Run.StepNumber
import StepScript.Proofs.Run.Isolation
import StepScript.Proofs.Run.Surfacing
import StepScript.Proofs.Run.Skipping
import StepScript.Proofs.Step.Shorthand
import StepScript.Proofs.Property.Literal
import StepScript.Proofs.Run.Distinct
import StepScript.Proofs.Test.Result
import StepScript.Proofs.Expression.Reference
import StepScript.Proofs.Value.Plain
import StepScript.Proofs.Expression.Variable
import StepScript.Proofs.Action.Handing
import StepScript.Proofs.Property.Untouched
import StepScript.Proofs.Action.Building
import StepScript.Proofs.Step.Nesting
import StepScript.Proofs.Files.Writing
import StepScript.Proofs.CommandLine.Reports
import StepScript.Proofs.Marker.Scan
import StepScript.Proofs.Marker.Splice
import StepScript.Proofs.Run.Joint
import StepScript.Proofs.Property.Interpolation
import StepScript.Proofs.Action.Check
import StepScript.Proofs.Json.Equality
import StepScript.Proofs.Expression.Renaming
import StepScript.Proofs.Expression.Quotation
import StepScript.Proofs.Action.Acceptance
import StepScript.Proofs.Run.Immediate
import StepScript.Proofs.Property.Field
import StepScript.Proofs.Property.CycleGuard
import StepScript.Proofs.Property.Once
import StepScript.Proofs.CommandLine.Assignments
import StepScript.Proofs.Number.Rounding
import StepScript.Proofs.Scope.Layers
import StepScript.Proofs.Property.Marks
import StepScript.Proofs.Property.Naming
import StepScript.Proofs.Step.Reading
import StepScript.Proofs.Step.ListForms
import StepScript.Proofs.Step.Grammar
import StepScript.Proofs.Step.Description
import StepScript.Proofs.Run.OneByOne
import StepScript.Proofs.Action.Pipe
import StepScript.Proofs.Action.Junction
import StepScript.Proofs.Run.Entering
import StepScript.Proofs.Action.Loop
import StepScript.Proofs.Action.Override
import StepScript.Proofs.Step.ListBindings
import StepScript.Proofs.Files.Listing
import StepScript.Proofs.Test.Loading
import StepScript.Proofs.Expression.ShortNames
import StepScript.Proofs.Scope.History
import StepScript.Proofs.Test.Recording
import StepScript.Proofs.CommandLine.Verdict
