import DocMapper.Json.Reader
import DocMapper.Pivot.Rows
import DocMapper.Relation.Link
import DocMapper.Relation.Reconcile
import DocMapper.Proofs.Outcome
import DocMapper.Proofs.Order
import DocMapper.Proofs.Path
import DocMapper.Proofs.Entity.History
import DocMapper.Proofs.Entity.Merging
import DocMapper.Proofs.Entity.Deletion
import DocMapper.Proofs.Entity.Restoring
import DocMapper.Proofs.Entity.Counting
import DocMapper.Proofs.Entity.Finding
import DocMapper.Proofs.Schedule
import DocMapper.Proofs.Pipeline
import DocMapper.Proofs.Pivot.Progress
import DocMapper.Proofs.Relation.Copies
import DocMapper.Proofs.Query.Plan
import DocMapper.Proofs.Query.Roots
import DocMapper.Proofs.Query.Shown
import DocMapper.Proofs.Relation.Keyless
import DocMapper.Proofs.Query.Reordering
import DocMapper.Proofs.Query.Pages
import DocMapper.Proofs.Query.Sources
import DocMapper.Proofs.Query.Extremes
import DocMapper.Proofs.Query.Ordering
import DocMapper.Proofs.Pivot.Repetition
import DocMapper.Proofs.Pivot.Detaching
import DocMapper.Proofs.Pivot.ExtraAttributes
import DocMapper.Proofs.Pivot.Associations
import DocMapper.Proofs.Insertion
import DocMapper.Proofs.Relation.Mutual
import DocMapper.Proofs.Relation.Declared
import DocMapper.Proofs.Relation.Creation
import DocMapper.Proofs.Setting
import DocMapper.Proofs.Query.First
import DocMapper.Proofs.Entity.Destroying
import DocMapper.Proofs.Query.Like
import DocMapper.Proofs.Repeating
import DocMapper.Proofs.Query.Successive
import DocMapper.Proofs.IdForms
import DocMapper.Proofs.Grouping
import DocMapper.Proofs.Relation.EagerTree
import DocMapper.Proofs.Relation.NestedLoads
import DocMapper.Proofs.Paging
import DocMapper.Proofs.Preorder
import DocMapper.Proofs.Inclusion
import DocMapper.Proofs.Tally
