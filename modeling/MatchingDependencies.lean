import MatchingDependencies.CommandLine
import MatchingDependencies.Main
import MatchingDependencies.Proofs.Path.Order
import MatchingDependencies.Proofs.Path.Premise
import MatchingDependencies.Proofs.Path.Numeric
import MatchingDependencies.Proofs.Trie.Entries
import MatchingDependencies.Proofs.Trie.Insertion
import MatchingDependencies.Proofs.Trie.Links
import MatchingDependencies.Proofs.Lattice.Claims
import MatchingDependencies.Proofs.Lattice.Changes
import MatchingDependencies.Proofs.Lattice.Additions
import MatchingDependencies.Proofs.Lattice.Listings
import MatchingDependencies.Proofs.Lattice.Ordered
import MatchingDependencies.Proofs.Lattice.Unsupported
import MatchingDependencies.Proofs.Ascending
import MatchingDependencies.Proofs.Delimited.Calls
import MatchingDependencies.Proofs.Delimited.Arrival
import MatchingDependencies.Proofs.Delimited.Rewinding
import MatchingDependencies.Proofs.Delimited.Records
import MatchingDependencies.Proofs.Delimited.Outcomes
import MatchingDependencies.Proofs.Delimited.Faults
import MatchingDependencies.Proofs.Delimited.Rereading
import MatchingDependencies.Proofs.RowSource
import MatchingDependencies.Proofs.Table
import MatchingDependencies.Proofs.Table.Loading
import MatchingDependencies.Proofs.Comparison.Row
import MatchingDependencies.Proofs.Comparison.Columns
import MatchingDependencies.Proofs.Comparison.Reference
import MatchingDependencies.Proofs.Comparison.Gaps
import MatchingDependencies.Proofs.Dataset.Pairs
import MatchingDependencies.Proofs.Dataset.Reference
import MatchingDependencies.Proofs.Dataset.Kinds
import MatchingDependencies.Proofs.Dataset.Groups
import MatchingDependencies.Proofs.Dataset.Gaps
import MatchingDependencies.Proofs.Dataset.Similar
import MatchingDependencies.Proofs.Stopping
import MatchingDependencies.Proofs.Validation.Outcome
import MatchingDependencies.Proofs.Setting
import MatchingDependencies.Proofs.Lattice.Sound
import MatchingDependencies.Proofs.Coverage
import MatchingDependencies.Proofs.Inference.Refutation
import MatchingDependencies.Proofs.Inference.Contradictions
import MatchingDependencies.Proofs.Inference.Retention
import MatchingDependencies.Proofs.Inference.Rounds
import MatchingDependencies.Proofs.Inference.Agenda
import MatchingDependencies.Proofs.Inference.Calls
import MatchingDependencies.Proofs.Schedule.Batch
import MatchingDependencies.Proofs.Schedule.Slots
import MatchingDependencies.Proofs.Schedule.Narrowing
import MatchingDependencies.Proofs.Schedule.Picking
import MatchingDependencies.Proofs.Schedule.Memo
import MatchingDependencies.Proofs.Schedule.Notes
import MatchingDependencies.Proofs.Traversal.Correction
import MatchingDependencies.Proofs.Traversal.Checked
import MatchingDependencies.Proofs.Traversal.Steps
import MatchingDependencies.Proofs.Search
import MatchingDependencies.Proofs.Arrangement
import MatchingDependencies.Proofs.Best
import MatchingDependencies.Proofs.Dependency.Listing
import MatchingDependencies.Proofs.Dependency.Order
import MatchingDependencies.Proofs.Discovery.Outcome
import MatchingDependencies.Proofs.Admission
import MatchingDependencies.Proofs.Discovery.Guarantees
import MatchingDependencies.Proofs.Discovery.Gaps
import MatchingDependencies.Proofs.Discovery.Independence
import MatchingDependencies.Proofs.Lattice.Built
import MatchingDependencies.Proofs.Lattice.Flat
import MatchingDependencies.Proofs.Lattice.Marks
import MatchingDependencies.Proofs.Lattice.Operations
import MatchingDependencies.Proofs.Lattice.Numbered
import MatchingDependencies.Proofs.Lattice.Exact
import MatchingDependencies.Proofs.Schedule.Levels
import MatchingDependencies.Proofs.Traversal.Fixpoint
import MatchingDependencies.Proofs.History
import MatchingDependencies.Proofs.Discovery.Histories
import MatchingDependencies.Proofs.Traversal.Grid
import MatchingDependencies.Proofs.Traversal.Potential
import MatchingDependencies.Proofs.Traversal.Termination
import MatchingDependencies.Proofs.Termination
import MatchingDependencies.Proofs.Discovery.Termination
import MatchingDependencies.Proofs.Discovery.Ordering
import MatchingDependencies.Proofs.Discovery.Pruning
import MatchingDependencies.Proofs.Discovery.Assertions
import MatchingDependencies.Proofs.Inference.Asserting
import MatchingDependencies.Proofs.Traversal.Asserting
import MatchingDependencies.Proofs.Text.Encoding
import MatchingDependencies.Proofs.Delimited.Writing
import MatchingDependencies.Proofs.Validation.Enumeration
import MatchingDependencies.Proofs.Validation.Looks
import MatchingDependencies.Proofs.Validation.Visits
import MatchingDependencies.Proofs.Validation.Counterexamples
import MatchingDependencies.Proofs.Inference.Exactness
