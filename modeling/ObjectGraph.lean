import ObjectGraph.Value.Cell
import ObjectGraph.Value.Text
import ObjectGraph.Digest.Encoding
import ObjectGraph.Schema
import ObjectGraph.Shape.Basic
import ObjectGraph.Column.Arrow
import ObjectGraph.Store.Write
import ObjectGraph.Store.Fingerprint
import ObjectGraph.Bag.Fallbacks
import ObjectGraph.Slice
import ObjectGraph.Walk.Layout
import ObjectGraph.Store.Mention
import ObjectGraph.Walk.Run
import ObjectGraph.Operator.Copy
import ObjectGraph.Grouping.GroupBy
import ObjectGraph.Operator.Registry
import ObjectGraph.Config.Load
import ObjectGraph.Config.Json
import ObjectGraph.Proofs.Store.Fact
import ObjectGraph.Proofs.Store.Valid
import ObjectGraph.Proofs.Store.Reading
import ObjectGraph.Proofs.Walk.Reach
import ObjectGraph.Proofs.Walk.Copy
import ObjectGraph.Proofs.Walk.Step
import ObjectGraph.Proofs.Walk.Effect
import ObjectGraph.Proofs.Walk.Trace
import ObjectGraph.Proofs.Walk.Extract
import ObjectGraph.Proofs.Column.Items
import ObjectGraph.Proofs.Walk.Renaming
import ObjectGraph.Proofs.Store.Ids
import ObjectGraph.Proofs.Walk.Shallow
import ObjectGraph.Proofs.Bag.Flatten
import ObjectGraph.Proofs.Walk.Simulation
import ObjectGraph.Proofs.Walk.Twin
import ObjectGraph.Proofs.Walk.Clone
import ObjectGraph.Proofs.Walk.Length
import ObjectGraph.Proofs.Walk.Merge
import ObjectGraph.Proofs.Walk.CloneWith
import ObjectGraph.Proofs.Walk.Answers
import ObjectGraph.Proofs.Walk.Idempotent
import ObjectGraph.Proofs.Operator.Copy
import ObjectGraph.Proofs.Operator.Clone
import ObjectGraph.Proofs.Operator.CloneWith
import ObjectGraph.Proofs.Value.Order
import ObjectGraph.Proofs.Shape.Segment
import ObjectGraph.Proofs.Grouping.Label
import ObjectGraph.Proofs.Grouping.Partition
import ObjectGraph.Proofs.Grouping.GroupBy
import ObjectGraph.Proofs.Grouping.Together
import ObjectGraph.Proofs.Grouping.Run
import ObjectGraph.Proofs.Grouping.Sorted
import ObjectGraph.Proofs.Grouping.Unique
import ObjectGraph.Proofs.Bag.History
import ObjectGraph.Proofs.Bag.Preorder
import ObjectGraph.Proofs.Bag.LookUp
import ObjectGraph.Proofs.Walk.OwnSchemas
import ObjectGraph.Proofs.Shape.Made
import ObjectGraph.Proofs.Buffer.Access
import ObjectGraph.Proofs.Buffer.Column
import ObjectGraph.Proofs.Grouping.Buffers
import ObjectGraph.Proofs.Grouping.Fill
import ObjectGraph.Proofs.Grouping.Laid
import ObjectGraph.Proofs.Grouping.Collect
import ObjectGraph.Proofs.Grouping.Gather
import ObjectGraph.Proofs.Grouping.InRange
import ObjectGraph.Proofs.Grouping.Failure
import ObjectGraph.Proofs.Walk.Dispatch
import ObjectGraph.Proofs.Operator.Outcome
import ObjectGraph.Proofs.Operator.Valid
import ObjectGraph.Proofs.Operator.Obtained
import ObjectGraph.Proofs.Store.HashedDict
import ObjectGraph.Proofs.Store.Overlay
import ObjectGraph.Proofs.Store.Extend
import ObjectGraph.Proofs.Store.Explode
import ObjectGraph.Proofs.Digest.TextOrder
import ObjectGraph.Proofs.Store.Attributes
import ObjectGraph.Proofs.Digest.Encoding
import ObjectGraph.Proofs.Grouping.Representation
import ObjectGraph.Proofs.Store.Fingerprint
import ObjectGraph.Proofs.Walk.FirstLevel
import ObjectGraph.Proofs.Shape.Flatten
import ObjectGraph.Proofs.Column.Build
import ObjectGraph.Proofs.Value.FloatKey
import ObjectGraph.Proofs.Grouping.Matching
import ObjectGraph.Proofs.Value.PrintedId
import ObjectGraph.Proofs.Shape.Prefix
import ObjectGraph.Proofs.Column.Arrow
import ObjectGraph.Proofs.Schema.NoFollow
import ObjectGraph.Proofs.Config.JsonText
import ObjectGraph.Proofs.Config.Json
import ObjectGraph.Proofs.Config.Library
import ObjectGraph.Proofs.Config.Layers
import ObjectGraph.Proofs.Config.Sources
import ObjectGraph.Proofs.Shape.Ranges
import ObjectGraph.Proofs.Value.TotalOrder
import ObjectGraph.Proofs.Value.Sorting
import ObjectGraph.Proofs.Store.WellKinded
import ObjectGraph.Proofs.Operator.Stores
