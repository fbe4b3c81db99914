import ElasticPPQ.Plq.InOrder
import ElasticPPQ.Plq.InOrderConservation
import ElasticPPQ.Plq.ReorderGuarantee
import ElasticPPQ.Plq.OutOfOrder
import ElasticPPQ.Query.SkySet
import ElasticPPQ.Query.TopdSet
import ElasticPPQ.Wlq.System
import ElasticPPQ.Lib.FoldTree
import ElasticPPQ.Wlq.Invariant
import ElasticPPQ.Wlq.Finalization
import ElasticPPQ.Wlq.Progress
import ElasticPPQ.Wlq.RefCount
import ElasticPPQ.Wlq.Accounting
import ElasticPPQ.Wlq.Completeness
import ElasticPPQ.PaneFarming
import ElasticPPQ.Plq.Conservation
import ElasticPPQ.Plq.EndOfStream
import ElasticPPQ.Plq.InOrderEmitter
import ElasticPPQ.Control.Agreement
import ElasticPPQ.Plq.Multicasts
import ElasticPPQ.Plq.Calls
import ElasticPPQ.Lib.Welford
import ElasticPPQ.Plq.AdaptivePanes
import ElasticPPQ.Plq.Statistics
import ElasticPPQ.Plq.Bookkeeping
import ElasticPPQ.Plq.DropRate
import ElasticPPQ.Plq.SlackGuarantee
import ElasticPPQ.Plq.DropControl
import ElasticPPQ.Plq.Reports
import ElasticPPQ.Control.PoolConstruction
import ElasticPPQ.Query.ToVector
import ElasticPPQ.Socket.Transfer
import ElasticPPQ.Control.Splitting
import ElasticPPQ.Plq.Ownership
import ElasticPPQ.Plq.Messages
import ElasticPPQ.Plq.Recording
import ElasticPPQ.Plq.Completion
import ElasticPPQ.Lib.Lifetime
import ElasticPPQ.Pattern.System
import ElasticPPQ.Pattern.Transfer
import ElasticPPQ.Pattern.Independence
import ElasticPPQ.Pattern.InOrder
import ElasticPPQ.Pattern.InOrderStream
import ElasticPPQ.Pattern.OutOfOrder
import ElasticPPQ.Pattern.OutOfOrderStream
import ElasticPPQ.Pattern.ElasticStream
import ElasticPPQ.Lib.Turns
import ElasticPPQ.Plq.RoundRobin
import ElasticPPQ.Lib.Loops
import ElasticPPQ.Lib.Checked
import ElasticPPQ.Query.SkyScan
import ElasticPPQ.Slack.PidAutotuning
import ElasticPPQ.Lib.Forest
import ElasticPPQ.Checker.SkyPoint
import ElasticPPQ.Checker.Query
import ElasticPPQ.Checker.SkyRTree
import ElasticPPQ.Checker.Verdict
import ElasticPPQ.Control.Utilization
