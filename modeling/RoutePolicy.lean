import RoutePolicy.Formula.Layout
import RoutePolicy.Main
import RoutePolicy.Net.Editing
import RoutePolicy.Net.Equality
import RoutePolicy.Net.Layout
import RoutePolicy.Proofs.Walk
import RoutePolicy.Proofs.Net.WellFormed
import RoutePolicy.Proofs.Except
import RoutePolicy.Proofs.Net.Firing
import RoutePolicy.Proofs.Net.InPlace
import RoutePolicy.Proofs.Net.StateEquation
import RoutePolicy.Proofs.StepGraph
import RoutePolicy.Proofs.PathSet
import RoutePolicy.Proofs.Formula.Semantics
import RoutePolicy.Proofs.Survey
import RoutePolicy.Proofs.ReachabilityGraph
import RoutePolicy.Proofs.Enumeration
import RoutePolicy.Proofs.MaximalPaths
import RoutePolicy.Proofs.Formula.Operators
import RoutePolicy.Proofs.Net.Data
import RoutePolicy.Proofs.Route.Reachability
import RoutePolicy.Proofs.Verification.Access
import RoutePolicy.Proofs.Net.Unfolding
import RoutePolicy.Proofs.Number.Numeral
import RoutePolicy.Proofs.Concurrency
import RoutePolicy.Proofs.Net.Weights
import RoutePolicy.Proofs.Route.Succession
import RoutePolicy.Proofs.Verification.Usage
import RoutePolicy.Proofs.Verification.Clamping
import RoutePolicy.Proofs.ParallelSets
import RoutePolicy.Proofs.Simulation
import RoutePolicy.Proofs.Route.Lineage
import RoutePolicy.Proofs.Route.BreadthFirst
import RoutePolicy.Proofs.Verification.Prohibition
import RoutePolicy.Proofs.Verification.Duty
import RoutePolicy.Proofs.Verification.DutyVerdicts
import RoutePolicy.Proofs.Verification.UsageVerdicts
import RoutePolicy.Proofs.Route.Translation
import RoutePolicy.Proofs.Route.Declared
import RoutePolicy.Proofs.Limits
import RoutePolicy.Proofs.Verification.Limits
import RoutePolicy.Proofs.StateLimit
import RoutePolicy.Proofs.PathLimit
import RoutePolicy.Proofs.FiringDistance
import RoutePolicy.Proofs.MarkerCounts
import RoutePolicy.Proofs.Growth
import RoutePolicy.Proofs.Net.Matching
import RoutePolicy.Proofs.Net.Renumbering
import RoutePolicy.Proofs.Renumbering
import RoutePolicy.Proofs.Formula.Renumbering
import RoutePolicy.Proofs.Formula.Citations
import RoutePolicy.Proofs.Route.Relisting
import RoutePolicy.Proofs.Verification.Renumbering
import RoutePolicy.Proofs.Verification.Independence
import RoutePolicy.Proofs.Net.Tables
import RoutePolicy.Proofs.Net.Steps
import RoutePolicy.Proofs.Net.Agreement
import RoutePolicy.Proofs.Net.UpToMarkers
import RoutePolicy.Proofs.Net.Dot
import RoutePolicy.Proofs.Net.Congruence
import RoutePolicy.Proofs.Json.RoundTrip
import RoutePolicy.Proofs.Document.Notation
import RoutePolicy.Proofs.Document.Policy
import RoutePolicy.Proofs.Document.Json
import RoutePolicy.Proofs.Document.Route
import RoutePolicy.Proofs.Document.Report
import RoutePolicy.Proofs.Ron.Literal
import RoutePolicy.Proofs.Ron.RoundTrip
import RoutePolicy.Proofs.Document.Ron
import RoutePolicy.Proofs.Document.Net
import RoutePolicy.Proofs.Net.History
import RoutePolicy.Proofs.Net.Reloading
import RoutePolicy.Proofs.Acyclic
import RoutePolicy.Proofs.Net.Batch
import RoutePolicy.Proofs.Formula.Evidence
import RoutePolicy.Proofs.Formula.Explanation
import RoutePolicy.Proofs.Formula.Text
import RoutePolicy.Proofs.Verification.Messages
import RoutePolicy.Proofs.Verification.Skipped
import RoutePolicy.Proofs.Route.Equality
