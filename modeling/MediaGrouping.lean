import MediaGrouping.Options.Config
import MediaGrouping.Pipeline
import MediaGrouping.Proofs.Forest.Erasing
import MediaGrouping.Proofs.Forest.Inserting
import MediaGrouping.Proofs.Grouping.Accounting
import MediaGrouping.Proofs.Grouping.Aggregation
import MediaGrouping.Proofs.Grouping.Conditions
import MediaGrouping.Proofs.Grouping.NestedWrappers
import MediaGrouping.Proofs.Grouping.Refinement
import MediaGrouping.Proofs.Grouping.Repeating
import MediaGrouping.Proofs.Grouping.Rollback
import MediaGrouping.Proofs.Grouping.Workshop
import MediaGrouping.Proofs.Query.Features
import MediaGrouping.Proofs.Query.Lengths
import MediaGrouping.Proofs.Query.Sorting
import MediaGrouping.Proofs.Scope.Numbering
import MediaGrouping.Proofs.Sheet.Ink
import MediaGrouping.Proofs.Sheet.Joining
import MediaGrouping.Proofs.Sheet.Places
import MediaGrouping.Proofs.Sheet.RoundTrip
import MediaGrouping.Proofs.Sheet.WellFormed
import MediaGrouping.Proofs.Text.Stretches
