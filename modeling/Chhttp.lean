import Chhttp.Lib.Search
import Chhttp.Lib.Loop
import Chhttp.Lib.Lockstep
import Chhttp.Lib.Run
import Chhttp.Lib.Tally
import Chhttp.Lib.Scan
import Chhttp.Lib.Fragment
import Chhttp.Lib.Numeral
import Chhttp.Lib.Pathname
import Chhttp.Lib.LinkedList
import Chhttp.Common.Text
import Chhttp.Common.Headers
import Chhttp.Common.Message
import Chhttp.Common.Url
import Chhttp.Common.Resolve
import Chhttp.Common.Rebuild
import Chhttp.Common.Query
import Chhttp.Common.Base64
import Chhttp.Common.ContentRange
import Chhttp.Common.ReadBuffer
import Chhttp.Common.Encoding
import Chhttp.Common.Digest
import Chhttp.Protocol.Lines
import Chhttp.Protocol.Head
import Chhttp.Protocol.Input
import Chhttp.Protocol.RequestHead
import Chhttp.Protocol.Delivery
import Chhttp.Protocol.Chunked
import Chhttp.Protocol.Body
import Chhttp.Protocol.BodyLimit
import Chhttp.Protocol.Decoding
import Chhttp.Protocol.StreamingDecoder
import Chhttp.Protocol.Decompression
import Chhttp.Protocol.Coding
import Chhttp.Protocol.Request
import Chhttp.Protocol.Streamed
import Chhttp.Protocol.Output
import Chhttp.Protocol.Serialize
import Chhttp.Protocol.Substitution
import Chhttp.Protocol.Write
import Chhttp.Protocol.Written
import Chhttp.Protocol.ChunkedRoundTrip
import Chhttp.Protocol.Sent
import Chhttp.Protocol.Upload
import Chhttp.Protocol.Wire
import Chhttp.Protocol.RequestRoundTrip
import Chhttp.Protocol.Response
import Chhttp.Protocol.ResponseRoundTrip
import Chhttp.Server.BodySource
import Chhttp.Server.Reply
import Chhttp.Server.Range
import Chhttp.Server.Static
import Chhttp.Server.Session
import Chhttp.Server.Boundaries
import Chhttp.Server.Reuse
import Chhttp.Server.Pattern
import Chhttp.Server.Captures
import Chhttp.Server.Dispatch
import Chhttp.Server.FirstMatch
import Chhttp.Server.PathParams
import Chhttp.Server.Lifetime
import Chhttp.Server.SessionAccounting
import Chhttp.Server.Shutdown
import Chhttp.Server.WorkerPool
import Chhttp.Server.IdleScan
import Chhttp.Client.Pool
import Chhttp.Client.Moves
import Chhttp.Client.Accounting
import Chhttp.Client.Queue
import Chhttp.Client.Exchange
import Chhttp.Client.Credentials
import Chhttp.Client.Resending
import Chhttp.Client.Stale
import Chhttp.Client.Surplus
import Chhttp.Client.Control
import Chhttp.Client.Registry
import Chhttp.Sse.Parser
import Chhttp.Sse.Fragments
import Chhttp.Sse.Limits
import Chhttp.Sse.Lines
import Chhttp.Sse.Resume
import Chhttp.Sse.Writer
import Chhttp.Sse.Injection
import Chhttp.Sse.Client
import Chhttp.Sse.Reconnect
import Chhttp.Sse.Stop
import Chhttp.Multipart.Head
import Chhttp.Multipart.Parser
import Chhttp.Multipart.Form
import Chhttp.Multipart.Fragments
import Chhttp.Multipart.Limits
import Chhttp.Multipart.Buffered
import Chhttp.Multipart.Writer
import Chhttp.Multipart.WriterRoundTrip
import Chhttp.Multipart.Length
import Chhttp.Streaming.JsonStream
import Chhttp.Streaming.FileSink
import Chhttp.WebSocket.Utf8
import Chhttp.Task.Handoff
import Chhttp.Transport.Completion
import Chhttp.Transport.Write
import Chhttp.Transport.Runtime
import Chhttp.Transport.Connect
import Chhttp.WebSocket.Channel
import Chhttp.WebSocket.Frame
import Chhttp.WebSocket.Reassembly
import Chhttp.WebSocket.Receive
import Chhttp.WebSocket.Transfer
import Chhttp.WebSocket.Close
import Chhttp.WebSocket.Handshake
import Chhttp.Server.Coding
import Chhttp.Server.FileReply
import Chhttp.Server.Conversation
import Chhttp.Server.StreamRoute
import Chhttp.Multipart.Consume
import Chhttp.Multipart.Upload
