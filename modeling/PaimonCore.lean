import PaimonCore.Append.AppendOrder
import PaimonCore.Commit.BucketCounts
import PaimonCore.Commit.KeyRanges
import PaimonCore.Commit.Rollback
import PaimonCore.Commit.SnapshotManager
import PaimonCore.Common.ByteRangeCombiner
import PaimonCore.Common.DeltaVarintCompressor
import PaimonCore.GlobalIndex.DataEvolutionBatchScan
import PaimonCore.GlobalIndex.FullTextSearch
import PaimonCore.GlobalIndex.SortedFileGlobalIndexReader
import PaimonCore.MergeTree.AggregateGrouping
import PaimonCore.MergeTree.ChangelogSoundness
import PaimonCore.MergeTree.LevelsStore
import PaimonCore.MergeTree.LookupCompaction
import PaimonCore.MergeTree.RemoveRecordOnDelete
import PaimonCore.MergeTree.SortMergeReaderWithLoserTree
import PaimonCore.MergeTree.SpillFileMerger
import PaimonCore.Operation.OrphanFilesSafety
import PaimonCore.Parquet.PageFilteredRowGroupReader
import PaimonCore.Read.BlobFallback
import PaimonCore.Read.DataEvolutionFileReader
import PaimonCore.Read.SequentialVectorRead
import PaimonCore.Scan.MergeTreeSplitGenerator
