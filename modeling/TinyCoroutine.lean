import TinyCoroutine.Basic
import TinyCoroutine.Foundation.Run
import TinyCoroutine.Foundation.Sums
import TinyCoroutine.Foundation.RingBuffer
import TinyCoroutine.Channel.Basic
import TinyCoroutine.Channel.Invariant
import TinyCoroutine.Channel.Fifo
import TinyCoroutine.Channel.Operations
import TinyCoroutine.Runtime.Engine
import TinyCoroutine.Runtime.State
import TinyCoroutine.Runtime.Step
import TinyCoroutine.Runtime.Transition
import TinyCoroutine.Runtime.Shutdown
import TinyCoroutine.Runtime.LoopWait
import TinyCoroutine.Runtime.Wakeup
import TinyCoroutine.Runtime.Ledger
import TinyCoroutine.Runtime.Tracking
import TinyCoroutine.Runtime.Refinement
import TinyCoroutine.Runtime.Migration
import TinyCoroutine.Runtime.Closing
import TinyCoroutine.Runtime.Submit
import TinyCoroutine.Runtime.Accounting
import TinyCoroutine.Runtime.Drain
import TinyCoroutine.Sync.Basic
import TinyCoroutine.Sync.Transition
import TinyCoroutine.Sync.Places
import TinyCoroutine.Sync.Guards
import TinyCoroutine.Sync.LockBack
import TinyCoroutine.Task.Basic
import TinyCoroutine.Task.View
import TinyCoroutine.Task.Frames
import TinyCoroutine.Task.Completion
import TinyCoroutine.WaitGroup.Basic
import TinyCoroutine.WaitGroup.Waiters
import TinyCoroutine.WhenAll.Basic
import TinyCoroutine.WhenAll.Outcomes
import TinyCoroutine.Sync.Fairness
import TinyCoroutine.Sync.Exclusion
import TinyCoroutine.Sync.Notify
import TinyCoroutine.Channel.Reports
import TinyCoroutine.Channel.ReceiveReports
import TinyCoroutine.Channel.CloseContract
import TinyCoroutine.Channel.Calls
import TinyCoroutine.Channel.CallStacks
import TinyCoroutine.Channel.Wakes
import TinyCoroutine.Channel.WakeProtocol
import TinyCoroutine.Runtime.Hide
import TinyCoroutine.Runtime.Outside
import TinyCoroutine.Runtime.Epochs
import TinyCoroutine.Runtime.Polling
import TinyCoroutine.Runtime.IoLedger
import TinyCoroutine.Runtime.PollSection
import TinyCoroutine.Foundation.Steps
import TinyCoroutine.Foundation.Structured
import TinyCoroutine.Task.Chain
import TinyCoroutine.Task.ChainLog
import TinyCoroutine.Task.CallReturn
import TinyCoroutine.Channel.Agreement
import TinyCoroutine.Channel.Batches
import TinyCoroutine.Channel.Throwing
import TinyCoroutine.Channel.Attendance
import TinyCoroutine.Channel.Statistics
import TinyCoroutine.Channel.Books
import TinyCoroutine.Channel.Balance
import TinyCoroutine.Runtime.RingSpace
import TinyCoroutine.Foundation.Worklist
import TinyCoroutine.Runtime.Batching
import TinyCoroutine.Runtime.Startup
import TinyCoroutine.Foundation.Progress
import TinyCoroutine.Foundation.WaitQueues
import TinyCoroutine.Program.Basic
import TinyCoroutine.Program.Objects
import TinyCoroutine.Program.Waiting
import TinyCoroutine.Runtime.Dispatch
import TinyCoroutine.Runtime.Leaving
import TinyCoroutine.Runtime.Returning
import TinyCoroutine.Program.Drained
import TinyCoroutine.Runtime.Awaiting
import TinyCoroutine.Runtime.RoundTrip
import TinyCoroutine.Runtime.IoOrder
import TinyCoroutine.Runtime.Starvation
import TinyCoroutine.Task.Destruction
import TinyCoroutine.Task.Lifetimes
import TinyCoroutine.Task.Trees
