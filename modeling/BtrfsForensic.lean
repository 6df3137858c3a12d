import BtrfsForensic.Foundation.Slice
import BtrfsForensic.Foundation.Word
import BtrfsForensic.Foundation.Overlay
import BtrfsForensic.Foundation.Crc32c
import BtrfsForensic.Foundation.Worklist
import BtrfsForensic.Foundation.First
import BtrfsForensic.Foundation.Segments
import BtrfsForensic.Foundation.Rose
import BtrfsForensic.Core.Bytes
import BtrfsForensic.Core.Crc
import BtrfsForensic.Core.Chunk
import BtrfsForensic.Core.Superblock
import BtrfsForensic.Core.SuperblockPrefix
import BtrfsForensic.Core.Node
import BtrfsForensic.Core.ChunkMap
import BtrfsForensic.Core.Translation
import BtrfsForensic.Core.Bootstrap
import BtrfsForensic.Core.ReadBack
import BtrfsForensic.Core.Disk
import BtrfsForensic.Core.ChunkWalk
import BtrfsForensic.Core.WalkFailure
import BtrfsForensic.Core.FsTree
import BtrfsForensic.Core.Extent
import BtrfsForensic.Core.LzoFrame
import BtrfsForensic.Core.LinearRead
import BtrfsForensic.Core.ExtentLocality
import BtrfsForensic.Core.FileAssembly
import BtrfsForensic.Core.Writer
import BtrfsForensic.Forensic.Sha256
import BtrfsForensic.Forensic.Anomaly
import BtrfsForensic.Forensic.Audit
import BtrfsForensic.Forensic.Sweep
import BtrfsForensic.Forensic.Recover
import BtrfsForensic.Forensic.Volume
import BtrfsForensic.Forensic.SuperblockCheck
import BtrfsForensic.Forensic.BareDisk
import BtrfsForensic.Forensic.Evidence
import BtrfsForensic.Forensic.SweepCoverage
import BtrfsForensic.Forensic.SweepBudget
import BtrfsForensic.Forensic.NodeTampering
import BtrfsForensic.Forensic.CleanImage
import BtrfsForensic.Forensic.Recovery
import BtrfsForensic.Forensic.Provenance
import BtrfsForensic.Forensic.PermutedSlots
import BtrfsForensic.Forensic.SlotOrder
import BtrfsForensic.Core.NodeRoundTrip
import BtrfsForensic.Core.ChunkRoundTrip
import BtrfsForensic.Core.Directory
import BtrfsForensic.Core.PathResolution
import BtrfsForensic.Core.DirRecord
import BtrfsForensic.Foundation.Packed
import BtrfsForensic.Core.OpenedDisk
import BtrfsForensic.Core.RawNames
import BtrfsForensic.Core.Attributes
import BtrfsForensic.Core.PackedNames
import BtrfsForensic.Core.ExtentWindow
import BtrfsForensic.Core.ExtentSources
import BtrfsForensic.Core.AllocationBound
import BtrfsForensic.Core.PreallocExtents
import BtrfsForensic.Core.TruncatedItems
import BtrfsForensic.Core.ArrayBound
import BtrfsForensic.Foundation.Checked
import BtrfsForensic.Core.CheckedListing
import BtrfsForensic.Forensic.LeafDiff
import BtrfsForensic.Forensic.Orphans
import BtrfsForensic.Forensic.BackupRoots
import BtrfsForensic.Forensic.SweepSoundness
import BtrfsForensic.Core.ItemOrder
import BtrfsForensic.Core.PathLookup
import BtrfsForensic.Foundation.Fips180
import BtrfsForensic.Forensic.Sha256Digest
import BtrfsForensic.Core.Fill
import BtrfsForensic.Forensic.DirNames
import BtrfsForensic.Core.CheckedLzo
import BtrfsForensic.Core.Streams
import BtrfsForensic.Foundation.ErrorDetection
import BtrfsForensic.Forensic.BitFlips
import BtrfsForensic.Core.Metadata
import BtrfsForensic.Core.Snapshot
import BtrfsForensic.Core.SnapshotRead
import BtrfsForensic.Core.SnapshotContent
import BtrfsForensic.Core.SnapshotServed
import BtrfsForensic.Core.Formatted
import BtrfsForensic.Core.FormattedRead
import BtrfsForensic.Core.Draft
import BtrfsForensic.Forensic.History
import BtrfsForensic.Forensic.HistoryAudit
import BtrfsForensic.Forensic.HistoryRecovery
import BtrfsForensic.Forensic.Footprint
import BtrfsForensic.Core.Opening
import BtrfsForensic.Forensic.Isolation
import BtrfsForensic.Core.Truncation
import BtrfsForensic.Forensic.MountAndRecovery
import BtrfsForensic.Forensic.SuperblockFormat
import BtrfsForensic.Forensic.Findings
import BtrfsForensic.Core.Damage
