import RawDuck.SchemaCache
import RawDuck.Fit
import RawDuck.Coordinator
import RawDuck.Accept
import RawDuck.Pipeline
import RawDuck.AsyncBuffers
import RawDuck.Projection
import RawDuck.AppendPool
import RawDuck.FallbackFile
import RawDuck.Combined
import RawDuck.Attributes
import RawDuck.RowCount
import RawDuck.SkippedLines
import RawDuck.SchemaOrder
import RawDuck.TypeJoin
import RawDuck.AsyncPlaces
import RawDuck.CommitOnce
import RawDuck.Delivery
import RawDuck.CreationLock
import RawDuck.ColumnRewrite
import RawDuck.Signature
import RawDuck.InsertLane
import RawDuck.RemoteLane
import RawDuck.Descent
import RawDuck.AnyValue
import RawDuck.Serialize
import RawDuck.Reordering
import RawDuck.StreamIngestor
import RawDuck.Freshness
import RawDuck.ReadLoop
import RawDuck.GroupSets
import RawDuck.ListFill
import RawDuck.FallbackMirror
import RawDuck.Nesting
import RawDuck.OtlpIds
import RawDuck.LayoutCache
import RawDuck.GroupOutcome
import RawDuck.OtlpStatus
import RawDuck.PlanRewrite
import RawDuck.RewriteRuns
import RawDuck.Lineage
import RawDuck.Transforms
import RawDuck.Collector
