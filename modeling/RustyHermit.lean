import RustyHermit.Lib.Executor
import RustyHermit.Lib.Bits
import RustyHermit.Lib.ZOrder
import RustyHermit.Lib.Iterator
import RustyHermit.Lib.Slice
import RustyHermit.Lib.Counting
import RustyHermit.Lib.Machine
import RustyHermit.Lib.PollLoop
import RustyHermit.Lib.Wakers
import RustyHermit.Smoltcp.Time
import RustyHermit.Smoltcp.Socket
import RustyHermit.Smoltcp.Reference
import RustyHermit.Smoltcp.Async
import RustyHermit.Executor.Drivers
import RustyHermit.Executor.Result
import RustyHermit.Executor.Progress
import RustyHermit.Executor.Deadline
import RustyHermit.Executor.PollingMode
import RustyHermit.Executor.Park
import RustyHermit.Executor.Idle
import RustyHermit.Net.Device
import RustyHermit.Net.Dhcp
import RustyHermit.Net.Waker
import RustyHermit.Net.Scheduler
import RustyHermit.Net.AsyncSocket
import RustyHermit.Net.History
import RustyHermit.Net.Conn
import RustyHermit.Net.Handshake
import RustyHermit.Net.ReadWrite
import RustyHermit.Net.Transfer
import RustyHermit.Net.Wakeup
import RustyHermit.Net.Blocking
import RustyHermit.Net.Nic
import RustyHermit.Net.Startup
import RustyHermit.Net.SocketSet
import RustyHermit.Net.LocalPort
import RustyHermit.Net.Flush
import RustyHermit.Net.PollRequest
import RustyHermit.Net.Tokens
import RustyHermit.Demo.Splayed
import RustyHermit.Demo.Matmul
import RustyHermit.Demo.Product
import RustyHermit.Demo.Laplace
import RustyHermit.Benches.Connection
import RustyHermit.Benches.Config
import RustyHermit.Cmath
import RustyHermit.Lib.Duplex
import RustyHermit.Benches.Latency
import RustyHermit.Benches.Bandwidth
import RustyHermit.Net.Stream
import RustyHermit.Lib.Path
import RustyHermit.Lib.Fairness
import RustyHermit.Net.Progress
import RustyHermit.Lib.Relaxation
import RustyHermit.Demo.Convergence
import RustyHermit.Net.Hosted
import RustyHermit.Net.Halt
import RustyHermit.Net.Rest
import RustyHermit.Benches.OverHermit
