import Lotus.Store.ForkChoice
import Lotus.Store.Expand
import Lotus.Store.Coalescer
import Lotus.Store.BaseFee
import Lotus.VM.Copy
import Lotus.VM.Supply
import Lotus.VM.Create
import Lotus.Exchange.Agree
import Lotus.Sync.Headers
import Lotus.Sync.Callbacks
import Lotus.Sync.Targets
import Lotus.Consensus.Receipts
import Lotus.Mpool.Valid
import Lotus.Mpool.Pending
import Lotus.Mining.SlashFilter
import Lotus.Api.MpoolPush
import Lotus.Blockstore.Autobatch
import Lotus.Events.Handled
import Lotus.Events.ChainAt
import Lotus.Stmgr.SearchWait
import Lotus.Sealing.CommitBatch
import Lotus.Sealing.NumAssign
import Lotus.Paths.IndexLocks
import Lotus.Paths.Reserve
import Lotus.Sealing.Submitted
import Lotus.Backup.Log
import Lotus.Splitstore.CrashSafe
import Lotus.Splitstore.Marking
import Lotus.Splitstore.Bookkeeping
import Lotus.WdPost.Recover
import Lotus.WdPost.Submit
import Lotus.Paych.Vouchers
import Lotus.Paych.Funds
import Lotus.Sealer.Unseal
import Lotus.Sealer.Sched
