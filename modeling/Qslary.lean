import Qslary.Foundation.Transition
import Qslary.Foundation.OrderedSet
import Qslary.Foundation.Block
import Qslary.Foundation.Exclusive
import Qslary.Timers.Model
import Qslary.Timers.Invariant
import Qslary.Timers.Operations
import Qslary.Timers.Runs
import Qslary.Timers.Lifecycle
import Qslary.Timers.Firing
import Qslary.Timers.Cancel
import Qslary.Timers.Timerfd
import Qslary.Timers.Throwing
import Qslary.Bytes.Model
import Qslary.Bytes.Fifo
import Qslary.Events.Model
import Qslary.Events.Interest
import Qslary.Events.Dispatch
import Qslary.Scheduler.Model
import Qslary.Scheduler.Steps
import Qslary.Scheduler.Exclusion
import Qslary.Scheduler.Callbacks
import Qslary.Scheduler.Wakeups
import Qslary.Pool.Accounting
import Qslary.Pool.Expiry
import Qslary.Scheduler.Yielding
import Qslary.Reactor.Model
import Qslary.Reactor.Readiness
import Qslary.Foundation.RankedMap
import Qslary.Foundation.Text
import Qslary.Http.Message
import Qslary.Http.Framing
import Qslary.Http.Requests
import Qslary.Foundation.Scanner
import Qslary.Http.RequestTable
import Qslary.Http.RequestParser
import Qslary.Http.Splitting
import Qslary.Http.Session
import Qslary.Http.Straying
import Qslary.Descriptors.Model
import Qslary.Descriptors.PartialMap
import Qslary.Descriptors.Sharing
import Qslary.Config.Loading
import Qslary.Config.Notifying
import Qslary.Log.Model
import Qslary.Log.Saving
import Qslary.Log.Files
import Qslary.Log.Loggers
import Qslary.Log.Reloading
import Qslary.Http.Server
import Qslary.Uri.Model
import Qslary.Uri.Grammar
import Qslary.Uri.Runs
import Qslary.Uri.RoundTrip
import Qslary.Http.ResponseParser
import Qslary.Http.Receiving
import Qslary.Addresses.Model
import Qslary.Addresses.Subnets
import Qslary.Addresses.Order
import Qslary.Addresses.Printing
import Qslary.Hook.Blocking
import Qslary.Hook.Waiting
import Qslary.Hook.Retrying
import Qslary.Hook.Units
import Qslary.Http.Bodies
import Qslary.Http.Chunks
import Qslary.Shutdown.Counting
import Qslary.Bytes.Space
import Qslary.Bytes.Receiving
import Qslary.Addresses.HostNames
import Qslary.Http.Dispatching
import Qslary.Http.HeaderMaps
import Qslary.Sockets.Binding
import Qslary.Http.Methods
import Qslary.Log.Scanning
import Qslary.Log.Rendering
import Qslary.Log.Following
import Qslary.Foundation.Transfer
import Qslary.Streams.FixedSize
import Qslary.Bytes.Sending
import Qslary.Bytes.Construction
import Qslary.Config.Registering
import Qslary.Poller.Epoller
import Qslary.Poller.Matching
import Qslary.Http.Sending
import Qslary.Http.Decoding
import Qslary.Http.AcceptedResponses
import Qslary.Http.Exchange
import Qslary.Sync.ThreadStart
import Qslary.Sync.LoopThread
import Qslary.Loop.Functors
import Qslary.Locks.Alone
