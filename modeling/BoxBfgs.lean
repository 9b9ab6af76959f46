import BoxBfgs.Scalar
import BoxBfgs.Decimal.Shortest
import BoxBfgs.Decimal.Reading
import BoxBfgs.Factor
import BoxBfgs.Box
import BoxBfgs.Problem
import BoxBfgs.Memory
import BoxBfgs.Subspace
import BoxBfgs.Message
import BoxBfgs.Bounds.Making
import BoxBfgs.Checked.Bounds
import BoxBfgs.Checked.Factor
import BoxBfgs.Checked.Cauchy
import BoxBfgs.Debug
import BoxBfgs.Search.Bracket
import BoxBfgs.Search.Line
import BoxBfgs.Log
import BoxBfgs.Options
import BoxBfgs.Evaluator
import BoxBfgs.Solver.Report
import BoxBfgs.Solver.Run
import BoxBfgs.Solver.Basic
import BoxBfgs.Checked.Problem
import BoxBfgs.Problem.Separable
import BoxBfgs.Value.Parts
import BoxBfgs.Value.Reading
import BoxBfgs.Text.Lines
import BoxBfgs.Tensor.Basic
import BoxBfgs.Tensor.Choice
import BoxBfgs.Search.Traced
import BoxBfgs.Checked.Line
import BoxBfgs.Described.Bounds
import BoxBfgs.Described.Objective
import BoxBfgs.Proofs.Factor
import BoxBfgs.Proofs.Memory.Compact
import BoxBfgs.Proofs.Memory.Reachable
import BoxBfgs.Proofs.Memory.Product
import BoxBfgs.Proofs.Search.Bracket
import BoxBfgs.Proofs.Search.Step
import BoxBfgs.Proofs.Search.Sound
import BoxBfgs.Proofs.Search.Existence
import BoxBfgs.Proofs.Box
import BoxBfgs.Proofs.Path
import BoxBfgs.Proofs.Memory.Model
import BoxBfgs.Proofs.Cauchy
import BoxBfgs.Proofs.Cauchy.Path
import BoxBfgs.Proofs.Cauchy.Consistent
import BoxBfgs.Proofs.Cauchy.Descent
import BoxBfgs.Proofs.Cauchy.Renumbering
import BoxBfgs.Proofs.Cauchy.Minimum
import BoxBfgs.Proofs.Selection
import BoxBfgs.Proofs.Subspace
import BoxBfgs.Proofs.Bounds
import BoxBfgs.Proofs.Memory.Inverse
import BoxBfgs.Proofs.Run.Reachable
import BoxBfgs.Proofs.Search.Trials
import BoxBfgs.Proofs.Search.Line
import BoxBfgs.Proofs.Run.Descent
import BoxBfgs.Proofs.Run.Exact
import BoxBfgs.Proofs.Run.Unconstrained
import BoxBfgs.Proofs.Search.Visits
import BoxBfgs.Proofs.Run.Feasible
import BoxBfgs.Proofs.Run.Turn
import BoxBfgs.Proofs.Run.Watched
import BoxBfgs.Proofs.Run.Trace
import BoxBfgs.Proofs.Run.Tally
import BoxBfgs.Proofs.Run.Termination
import BoxBfgs.Proofs.Run.Chain
import BoxBfgs.Proofs.Run.Best
import BoxBfgs.Proofs.Run.Inspect
import BoxBfgs.Proofs.Run.Exit
import BoxBfgs.Proofs.Search.Lift
import BoxBfgs.Proofs.Run.Motion
import BoxBfgs.Proofs.Run.Abreast
import BoxBfgs.Proofs.Run.Heard
import BoxBfgs.Proofs.Run.Storage
import BoxBfgs.Proofs.Run.Checks
import BoxBfgs.Proofs.Run.Stopping
import BoxBfgs.Proofs.Memory.Room
import BoxBfgs.Proofs.Run.Reuse
import BoxBfgs.Proofs.Translation.Box
import BoxBfgs.Proofs.Translation.Bounds
import BoxBfgs.Proofs.Translation.Path
import BoxBfgs.Proofs.Translation.Run
import BoxBfgs.Proofs.Search.Safety
import BoxBfgs.Proofs.Search.Answer
import BoxBfgs.Proofs.Run.Silence
import BoxBfgs.Proofs.Run.Requests
import BoxBfgs.Proofs.Run.Reporting
import BoxBfgs.Proofs.Memory.Secant
import BoxBfgs.Proofs.Subspace.Truncation
import BoxBfgs.Proofs.Memory.Ledger
import BoxBfgs.Proofs.Search.Shrinking
import BoxBfgs.Proofs.Search.Extension
import BoxBfgs.Proofs.Tensor
import BoxBfgs.Proofs.Factor.Decomposition
import BoxBfgs.Proofs.Factor.Solution
import BoxBfgs.Proofs.Run.Curvature
import BoxBfgs.Proofs.Factor.Scaling
import BoxBfgs.Proofs.Memory.Scaling
import BoxBfgs.Proofs.Double
import BoxBfgs.Proofs.Bounds.WellFormed
import BoxBfgs.Proofs.Bounds.Lists
import BoxBfgs.Proofs.Bounds.Reading
import BoxBfgs.Proofs.Run.Confined
import BoxBfgs.Proofs.Options
import BoxBfgs.Proofs.Problem
import BoxBfgs.Proofs.Evaluator.Series
import BoxBfgs.Proofs.Log
import BoxBfgs.Proofs.Run.Restoring
import BoxBfgs.Proofs.Log.Calls
import BoxBfgs.Proofs.Cauchy.Stationary
import BoxBfgs.Proofs.Cauchy.Stages
