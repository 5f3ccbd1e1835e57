import Ham.Lib.Scan
import Ham.Lib.Lines
import Ham.Lib.Memory
import Ham.Lib.Run
import Ham.Lib.Endian
import Ham.Lib.OrderedSet
import Ham.Base.Types
import Ham.Net.FunctorQueue
import Ham.Net.Wakeup
import Ham.Net.EventLoopThread
import Ham.Net.ThreadLifetime
import Ham.Net.LoopHandover
import Ham.Net.TimerQueue
import Ham.Net.TimerSpec
import Ham.Net.TimerCancel
import Ham.Net.TimerFiring
import Ham.Net.TimerAlarm
import Ham.Net.TimerSet
import Ham.Net.Buffer
import Ham.Net.BufferRun
import Ham.Net.BufferInt
import Ham.Net.ScatterRead
import Ham.Net.Epoller
import Ham.Net.Registration
import Ham.Net.Interest
import Ham.Net.Polling
import Ham.Net.TcpConnection
import Ham.Net.ConnectionSpec
import Ham.Net.OutputStream
import Ham.Net.Reactor
import Ham.Net.WriteComplete
import Ham.Net.ActionSpec
import Ham.Net.ReactorEffects
import Ham.Net.ReactorSteps
import Ham.Net.ReactorInvariant
import Ham.Net.LoopThread
import Ham.Net.Notification
import Ham.Net.HalfClose
import Ham.Net.ForceClose
import Ham.Net.CloseOnce
import Ham.Net.Teardown
import Ham.Net.Registry
import Ham.Net.EventLoopThreadPool
import Ham.Net.Http.HttpRequest
import Ham.Net.Http.HttpContext
import Ham.Net.Http.Parse
import Ham.Net.Http.RequestLine
import Ham.Net.Http.LineGrammar
import Ham.Net.Http.ParserSafety
import Ham.Net.Http.FailedParse
import Ham.Net.Http.HeaderSection
import Ham.Net.Http.RoundTrip
import Ham.Net.Http.Incremental
import Ham.Net.Http.HttpResponse
import Ham.Net.Http.HttpServer
import Ham.Net.Http.KeepAlive
import Ham.Net.Http.Framing
import Ham.Net.Http.StatusLine
import Ham.Lib.Ledger
import Ham.Lib.Condition
import Ham.Base.BoundedBlockingQueue
import Ham.Base.BlockingQueue
import Ham.Base.ThreadPool
import Ham.Base.ThreadPoolSpec
import Ham.Base.ThreadPoolAlike
import Ham.Base.ThreadPoolLate
import Ham.Base.ThreadPoolOnce
import Ham.Base.ThreadPoolFlow
import Ham.Base.ThreadPoolStop
import Ham.Base.ThreadPoolThrow
import Ham.Base.ThreadPoolJoin
import Ham.Base.CountDownLatch
import Ham.Base.Exception
import Ham.Lib.Descriptors
import Ham.Net.Acceptor
import Ham.Net.Acceptance
import Ham.Net.Overload
import Ham.Examples.Chargen
import Ham.Net.Connector
import Ham.Net.ConnectorSpec
import Ham.Net.ConnectorAssertions
import Ham.Net.ReportedConnection
import Ham.Net.MemberProgress
import Ham.Net.Standing
import Ham.Net.Ownership
