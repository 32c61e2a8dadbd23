import TigerBeetle.Theorems.AtMostOnce
import TigerBeetle.Theorems.CommitQuorum
import TigerBeetle.Theorems.ExitView
import TigerBeetle.Theorems.Indexes
import TigerBeetle.Theorems.Reserved
import TigerBeetle.Theorems.Imported
import TigerBeetle.Theorems.Radix
import TigerBeetle.Theorems.CachesAgree
import TigerBeetle.Theorems.Checkpointing
import TigerBeetle.Theorems.Timestamps
import TigerBeetle.Theorems.Reservations
import TigerBeetle.Theorems.Released
import TigerBeetle.Theorems.ZigZagMerge
import TigerBeetle.Theorems.Wal
import TigerBeetle.Theorems.Clock
import TigerBeetle.Theorems.ReplyStore
import TigerBeetle.Theorems.Superblock
import TigerBeetle.Theorems.GridUncovered
import TigerBeetle.Theorems.CacheClocks
import TigerBeetle.Theorems.Malformed
import TigerBeetle.Theorems.Expired
import TigerBeetle.Theorems.Framing
import TigerBeetle.Theorems.ExactlyOnce
import TigerBeetle.Theorems.CheckedMultiBatch
import TigerBeetle.Theorems.BinarySearch
import TigerBeetle.Theorems.MarzulloOptimal
import TigerBeetle.Theorems.HeaderBreaks
import TigerBeetle.Theorems.Tombstones
import TigerBeetle.Theorems.CompactionRange
import TigerBeetle.Theorems.LeastOverlap
import TigerBeetle.Theorems.BitScan
import TigerBeetle.Theorems.EventWire
import TigerBeetle.Theorems.Reconfiguration
import TigerBeetle.Theorems.ViewRange
import TigerBeetle.Theorems.LedgerHistory
import TigerBeetle.Theorems.JvQuorum
import TigerBeetle.Theorems.Recovery
