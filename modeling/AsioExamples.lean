import AsioExamples.Lib.Lists
import AsioExamples.Lib.Lines
import AsioExamples.Lib.Machine
import AsioExamples.Lib.Framing
import AsioExamples.Lib.SendQueue
import AsioExamples.Cxx.GetLine
import AsioExamples.Chat.Message
import AsioExamples.Chat.Reader
import AsioExamples.Chat.RoundTrip
import AsioExamples.Chat.Room
import AsioExamples.Chat.Broadcast
import AsioExamples.Chat.WriteQueue
import AsioExamples.Chat.Closing
import AsioExamples.Chat.Server
import AsioExamples.Chat.Relay
import AsioExamples.Chat.Leaving
import AsioExamples.Chat.Headers
import AsioExamples.Chat.AtRest
import AsioExamples.Chat.Bounds
import AsioExamples.Http.RequestGrammar
import AsioExamples.Http.ViablePrefix
import AsioExamples.Http.Transitions
import AsioExamples.Http.VersionNumbers
import AsioExamples.Http.UrlDecode
import AsioExamples.Http.DocRoot
import AsioExamples.Http.ContentType
import AsioExamples.Http.ReplyDecode
import AsioExamples.Http.Connection
import AsioExamples.Http.ConnectionRuns
import AsioExamples.Http.HeaderStates
import AsioExamples.Http.ReplyReuse
import AsioExamples.Http.Chunks
import AsioExamples.Http.Server
import AsioExamples.Http.Shutdown
import AsioExamples.Http3.Server
import AsioExamples.Http2.Server
import AsioExamples.Http2.IoContextPool
import AsioExamples.Fork.Roles
import AsioExamples.Fork.Accepting
import AsioExamples.Echo.AtRest
import AsioExamples.Fork.Sessions
import AsioExamples.Echo.Blocking
import AsioExamples.Alloc.Session
import AsioExamples.Timer.FinalCount
import AsioExamples.Daytime.Client
import AsioExamples.Udp.Service
import AsioExamples.Http2.ThreadRuns
