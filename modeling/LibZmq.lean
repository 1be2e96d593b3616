import LibZmq.Ctx.Context
import LibZmq.Ctx.InprocOrders
import LibZmq.Ctx.MeetRuns
import LibZmq.Ctx.PendingConnections
import LibZmq.Messages.Distributed
import LibZmq.Objects.Mailbox
import LibZmq.Objects.MailboxSafe
import LibZmq.Objects.OwnLaunch
import LibZmq.Objects.OwnRuns
import LibZmq.Pipe.FixedMarks
import LibZmq.Pipe.PipeOptions
import LibZmq.Poller.PollerBase
import LibZmq.Sessions.Backoff
import LibZmq.Sessions.ClosingRuns
import LibZmq.Sessions.RawConnection
import LibZmq.Sessions.Recovery
import LibZmq.Sessions.ReqSession
import LibZmq.Sessions.UdpEngine
import LibZmq.Sockets.Dgram
import LibZmq.Sockets.EndpointRuns
import LibZmq.Sockets.Fairness
import LibZmq.Sockets.Filtering
import LibZmq.Sockets.Handover
import LibZmq.Sockets.Notifications
import LibZmq.Sockets.Partition
import LibZmq.Sockets.Replies
import LibZmq.Sockets.Requester
import LibZmq.Sockets.Server
import LibZmq.Sockets.SlotDist
import LibZmq.Sockets.SocketBase
import LibZmq.Sockets.StreamSend
import LibZmq.Sockets.Subscriber
import LibZmq.Sockets.Views
import LibZmq.Socks.ConnecterRuns
import LibZmq.Tcp.AddressMask
import LibZmq.Timers.Cancelling
import LibZmq.Timers.Handlers
import LibZmq.Timers.Timeout
import LibZmq.Trie.Canonical
import LibZmq.Ypipe.Conflate
import LibZmq.Ypipe.Fifo
import LibZmq.Z85
import LibZmq.Zmtp.CurveRuns
import LibZmq.Zmtp.EngineFailures
import LibZmq.Zmtp.EngineHeartbeats
import LibZmq.Zmtp.HeartbeatTtl
import LibZmq.Zmtp.MetadataBuffers
import LibZmq.Zmtp.PlainHello
import LibZmq.Zmtp.V1RoundTrip
import LibZmq.Zmtp.V2Safety
