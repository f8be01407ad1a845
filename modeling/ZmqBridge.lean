import ZmqBridge.Lib.Run
import ZmqBridge.Lib.CMemory
import ZmqBridge.Lib.Hex
import ZmqBridge.Lib.Discovery
import ZmqBridge.Lib.Mailbox
import ZmqBridge.Lib.Tally
import ZmqBridge.Lib.Chain
import ZmqBridge.Lib.Streams
import ZmqBridge.Lib.Ledger
import ZmqBridge.Lib.Ere
import ZmqBridge.Lib.EreSyntax
import ZmqBridge.Lib.ErePieces
import ZmqBridge.Lib.Attempt
import ZmqBridge.Lib.PtrArray
import ZmqBridge.Lib.Numeral
import ZmqBridge.Lib.Register
import ZmqBridge.Lib.Mutex
import ZmqBridge.Lib.Refine
import ZmqBridge.Lib.Wires
import ZmqBridge.Lib.RecLock
import ZmqBridge.Model.Defs
import ZmqBridge.Model.Msg
import ZmqBridge.Model.Naming
import ZmqBridge.Model.Transport
import ZmqBridge.Model.Publisher
import ZmqBridge.Model.Receive
import ZmqBridge.Model.UQueue
import ZmqBridge.Model.Queue
import ZmqBridge.Model.Timer
import ZmqBridge.Model.Threads
import ZmqBridge.Model.Subject
import ZmqBridge.Model.Wildcard
import ZmqBridge.Model.Create
import ZmqBridge.Model.Sockets
import ZmqBridge.Model.Params
import ZmqBridge.Msg.RoundTrip
import ZmqBridge.Msg.Send
import ZmqBridge.Msg.History
import ZmqBridge.Naming.Peers
import ZmqBridge.Naming.Mesh
import ZmqBridge.Naming.Beacon
import ZmqBridge.Naming.Replies
import ZmqBridge.Naming.Proxies
import ZmqBridge.Naming.Recovery
import ZmqBridge.Naming.Wire
import ZmqBridge.Data.Registry
import ZmqBridge.Data.Dispatch
import ZmqBridge.Data.World
import ZmqBridge.Data.Delivery
import ZmqBridge.Data.Interest
import ZmqBridge.Data.Inboxes
import ZmqBridge.Data.Serials
import ZmqBridge.Data.Bus
import ZmqBridge.Receive.Pointers
import ZmqBridge.Receive.Paths
import ZmqBridge.Receive.Robust
import ZmqBridge.Queue.Shape
import ZmqBridge.Queue.Fifo
import ZmqBridge.Queue.Contents
import ZmqBridge.Queue.Copies
import ZmqBridge.Queue.Dispatchers
import ZmqBridge.Queue.Loop
import ZmqBridge.Queue.Capacity
import ZmqBridge.Queue.Watermarks
import ZmqBridge.Timer.Destroy
import ZmqBridge.Timer.Reset
import ZmqBridge.Threads.Shutdown
import ZmqBridge.Threads.Disconnect
import ZmqBridge.Threads.Locks
import ZmqBridge.Threads.Sockets
import ZmqBridge.Threads.Close
import ZmqBridge.Threads.Freed
import ZmqBridge.Subject.Key
import ZmqBridge.Subject.Wildcard
import ZmqBridge.Subject.Topics
import ZmqBridge.Subject.Meet
import ZmqBridge.Create.Cleanup
import ZmqBridge.Create.Subscribe
import ZmqBridge.Config.Urls
import ZmqBridge.Config.Numbers
import ZmqBridge.Model.Oz
import ZmqBridge.Oz.Subscriber
