import Csilk.Messaging.TornWrite
import Csilk.Async.Outcome
import Csilk.Reload.Safety
import Csilk.Cache.Linear
import Csilk.Cache.Safety
import Csilk.Connection.Teardown
import Csilk.Hooks.Safety
import Csilk.Http1.ZeroCopy
import Csilk.Http1.InOrder
import Csilk.Memory.Blocks
import Csilk.Memory.Cap
import Csilk.WebSocket.Delivery
import Csilk.WebSocket.Broadcast
import Csilk.Sessions.Values
import Csilk.Context.Cleanup
import Csilk.Routing.Coverage
import Csilk.Queue.Fifo
import Csilk.Logger.Flush
import Csilk.Http2.Refine
import Csilk.Http2.Lifetime
import Csilk.Uring.Shutdown
import Csilk.Uring.Liveness
import Csilk.Uring.Ownership
import Csilk.Uring.Stream
import Csilk.Messaging.HandlerOrder
import Csilk.Messaging.Broker
import Csilk.Messaging.Flush
import Csilk.Context.RoundTrip
import Csilk.Multipart.Exact
import Csilk.Workflow.Resume
import Csilk.Workflow.Limit
import Csilk.Workflow.WalFlush
import Csilk.Db.Params
import Csilk.Migration.Crash
import Csilk.Dispatch.Perm
import Csilk.Mcp.Server
import Csilk.Http2.Body
import Csilk.Http1.Limits
import Csilk.Crypto.Blowfish
import Csilk.Http1.Redirect
import Csilk.Context.ReadBuffers
import Csilk.Context.Defer
import Csilk.Static.Range
import Csilk.Static.Files
import Csilk.Jwt.Memory
import Csilk.Jwt.Strict
import Csilk.Vector.Hnsw
import Csilk.Middleware.CircuitBreaker
import Csilk.Middleware.Gzip
import Csilk.Middleware.Sse
import Csilk.Middleware.Waf
import Csilk.Ai.Node
import Csilk.Ai.Stream
import Csilk.Workflow.Retry
