import DbLab.Btree.Scan
import DbLab.Btree.Cache
import DbLab.Btree.CutLoop
import DbLab.Btree.PageCodec
import DbLab.Btree.Protocol
import DbLab.Btree.Slotted
import DbLab.Btree.Growth
import DbLab.Experiment.Batch
import DbLab.Experiment.Generation
import DbLab.Experiment.Shrink
import DbLab.Experiment.TimingReport
import DbLab.Experiment.Sampling
import DbLab.Generation.Fresh
import DbLab.Generation.Checksum
import DbLab.Generation.Lock
import DbLab.Generation.LockRecord
import DbLab.Generation.Availability
import DbLab.Log.Handle
import DbLab.Lsm.Accounting
import DbLab.Lsm.BloomCodec
import DbLab.Lsm.Installs
import DbLab.Lsm.Views
import DbLab.Record.Recovery
import DbLab.Relational.Conflict
import DbLab.Relational.Replay
import DbLab.Relational.Oracle
import DbLab.Relational.Disjunctive
import DbLab.Relational.Cursor
import DbLab.Tx.ReadWrite
import DbLab.Tx.SnapshotEngine
import DbLab.Tx.Threads
import DbLab.Generation.CompactCopy
import DbLab.Generation.Lifecycle
import DbLab.Generation.MigrationStops
import DbLab.Experiment.ArchiveText
import DbLab.Lsm.BoundedParsing
import DbLab.Log.Conformance
import DbLab.Experiment.Engines
import DbLab.Experiment.ByteString
import DbLab.Lsm.Verify
import DbLab.Experiment.Workloads
