import Htap.Basis.Words
import Htap.Basis.ByteFormat
import Htap.Basis.ByteWalk
import Htap.Basis.Bitmap
import Htap.Basis.Splitting
import Htap.Basis.SortedMap
import Htap.Basis.Merging
import Htap.Basis.Binary64
import Htap.Basis.LruCache
import Htap.Storage.Types
import Htap.Storage.Memory
import Htap.SSTable.Format
import Htap.SSTable.NumericStats
import Htap.SSTable.ExactStats
import Htap.SSTable.RowBuilder
import Htap.SSTable.ColumnBuilder
import Htap.SSTable.Shape
import Htap.SSTable.IndexEntries
import Htap.Read.Reader
import Htap.Read.MetadataCache
import Htap.Read.FileRanges
import Htap.Read.Statistics
import Htap.Read.MetadataPages
import Htap.Read.Selector
import Htap.Read.Table
import Htap.Read.LinearSelector
import Htap.Cursor.Interface
import Htap.Cursor.BlockScan
import Htap.Cursor.SSTableRow
import Htap.Cursor.CheckedReads
import Htap.Cursor.RowDecoding
import Htap.Cursor.SSTableColumn
import Htap.Cursor.ColumnDecoding
import Htap.Cursor.ColumnRuns
import Htap.Cursor.Compose
import Htap.Cursor.Factory
import Htap.Cursor.OwnFiles
import Htap.Properties.SchemaBuilding
import Htap.Properties.RoundTrip
import Htap.Properties.SparseIndexBudget
import Htap.Properties.SparseSelection
import Htap.Properties.StableMerge
import Htap.Properties.CachedMetadata
import Htap.Properties.NumericStatistics
import Htap.Properties.BlockCache
import Htap.Properties.ProjectedDecoding
import Htap.Properties.ColumnBlockSafety
import Htap.Tree.Registry
import Htap.Properties.CompactionChoice
import Htap.Tree.Manifest
import Htap.Properties.ManifestRoundTrip
import Htap.Tree.ManifestBytes
import Htap.Properties.ManifestLoading
import Htap.Tree.CompactionJob
import Htap.Tree.LSMTree
import Htap.Tree.Invariant
import Htap.Tree.Scan
import Htap.Cursor.Truthful
import Htap.Cursor.Current
import Htap.Cursor.Unprojected
import Htap.Tree.OpenCursors
import Htap.Tree.Background
import Htap.Tree.Compacting
import Htap.Tree.Session
import Htap.Tree.Threads
import Htap.Tree.Frames
import Htap.Tree.OwnFiles
import Htap.Tree.Engine
import Htap.Tree.Sound
import Htap.Tree.Reading
import Htap.Tree.Recovery
import Htap.Tree.KeyTable
import Htap.Tree.WholeSteps
import Htap.Basis.Cascade
import Htap.Tree.Draining
import Htap.Properties.Restart
import Htap.Properties.FailedStep
import Htap.Properties.CrashSafety
import Htap.Properties.Quiescence
import Htap.Properties.FlushedOnce
import Htap.Properties.LastWriteWins
import Htap.Tree.Snapshot
import Htap.Properties.ScanSnapshot
import Htap.Properties.LiveCaches
import Htap.Properties.TableIsolation
import Htap.Properties.MemtableScan
import Htap.Properties.UnprojectedColumns
import Htap.Basis.Rounding
import Htap.Basis.Additions
import Htap.Basis.StdSort
import Htap.Parser.Ast
import Htap.Executor.Value
import Htap.Executor.Expression
import Htap.Executor.Plan
import Htap.Executor.Loop
import Htap.Executor.Aggregate
import Htap.Executor.Select
import Htap.Executor.Binder
import Htap.Executor.Pushdown
import Htap.Executor.RowSemantics
import Htap.Executor.PlainSelect
import Htap.Executor.MockEngine
import Htap.Properties.Limit
import Htap.Properties.OrderBy
import Htap.Basis.Grouping
import Htap.Executor.GroupedSelect
import Htap.Executor.GroupLaw
import Htap.Properties.Grouping
import Htap.Properties.RowOrder
import Htap.Properties.StrictWeakOrders
import Htap.Properties.ExactSum
import Htap.Executor.Insert
import Htap.Properties.InsertOrder
import Htap.Properties.StaticTypes
import Htap.Properties.RequiredProjection
import Htap.Parser.Recognition
import Htap.Parser.Numbers
import Htap.Parser.Sentences
import Htap.Properties.ParseErrors
import Htap.Parser.Spelling
import Htap.Properties.OneStatement
import Htap.Parser.Positions
import Htap.Properties.TokenSlices
import Htap.Parser.Printing
import Htap.Properties.PrintParse
import Htap.Properties.DataSkipping
import Htap.Properties.SelectOverTable
import Htap.Properties.Durability
import Htap.Properties.TwoEngines
import Htap.Properties.DirectoryContents
import Htap.Properties.LayoutIndependence
import Htap.Properties.LiveSelect
import Htap.Properties.QueryLaws
import Htap.Properties.SelectOverTime
import Htap.Executor.Consistent
import Htap.Properties.SelectErrors
import Htap.Executor.Literals
import Htap.Executor.Star
import Htap.Properties.TextRuns
import Htap.Properties.KeyPushdown
import Htap.Properties.TernaryPartition
import Htap.Properties.LayoutOutcome
import Htap.Properties.ScanContents
import Htap.Properties.RegistryInvariant
import Htap.Properties.BlockPruning
