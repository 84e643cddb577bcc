import SamLmdb.Lib.Interleaving
import SamLmdb.Lib.Monitor
import SamLmdb.Lib.PageTree
import SamLmdb.Lib.PageEdit
import SamLmdb.Lib.PageSplit
import SamLmdb.Error
import SamLmdb.Resize
import SamLmdb.Env.Map
import SamLmdb.Env.ResizeFailure
import SamLmdb.Env.Thread
import SamLmdb.Env.Ledger
import SamLmdb.Env.Counters
import SamLmdb.Env.Interlock
import SamLmdb.Env.MetaReads
import SamLmdb.Env.Headroom
import SamLmdb.Env.Discipline
import SamLmdb.Env.Progress
import SamLmdb.Env.ResizeStep
import SamLmdb.Env.ResizeLoop
import SamLmdb.Env.Growth
import SamLmdb.Env.PageToSpare
import SamLmdb.Env.Overflow
import SamLmdb.Env.DiskGuard
import SamLmdb.Env.ResizeLog
import SamLmdb.Env.DbiOpen
import SamLmdb.Env.Builder
import SamLmdb.Transaction.Types
import SamLmdb.Transaction.Handles
import SamLmdb.Transaction.Ownership
import SamLmdb.Transaction.Linearity
import SamLmdb.Cursor.Types
import SamLmdb.Cursor.Search
import SamLmdb.Cursor.Move
import SamLmdb.Cursor.Get
import SamLmdb.Cursor.Position
import SamLmdb.Cursor.Seek
import SamLmdb.Cursor.Missing
import SamLmdb.Cursor.Duplicates
import SamLmdb.Cursor.Walk
import SamLmdb.Cursor.Slices
import SamLmdb.Cursor.Range
import SamLmdb.Cursor.Split
import SamLmdb.Cursor.Steps
import SamLmdb.Cursor.Between
import SamLmdb.Cursor.Resume
import SamLmdb.Cursor.Pending
import SamLmdb.Cursor.Fused
import SamLmdb.Cursor.Address
import SamLmdb.Cursor.Update
import SamLmdb.Cursor.PutCurrent
import SamLmdb.Cursor.Put
import SamLmdb.Transaction.Reserve
import SamLmdb.Pages.Snapshot
import SamLmdb.Pages.MidlSort
