import AsioTest.ByteStrings
import AsioTest.MessageFraming
import AsioTest.IncrementalScan
import AsioTest.TransitionRuns
import AsioTest.ComponentRuns
import AsioTest.SqlLiterals
import AsioTest.MemoryImages
import AsioTest.AsyncSocket
import AsioTest.HttpRequestParser
import AsioTest.HttpRequestGrammar
import AsioTest.HttpParserGrammar
import AsioTest.HttpVersionNumbers
import AsioTest.HttpHeaderFolding
import AsioTest.HttpReply
import AsioTest.HttpRequestHandler
import AsioTest.HttpUrlDecode
import AsioTest.HttpHandlerPaths
import AsioTest.HttpServedFile
import AsioTest.HttpConnection
import AsioTest.HttpSegmentation
import AsioTest.HttpFraming
import AsioTest.HttpHeaderBlock
import AsioTest.HttpParserInvariant
import AsioTest.HttpReplyLogging
import AsioTest.HttpServer
import AsioTest.HttpShutdown
import AsioTest.HttpAnswers
import AsioTest.HttpServing
import AsioTest.OutputQueue
import AsioTest.AcceptLoop
import AsioTest.StreamLink
import AsioTest.ChatMessage
import AsioTest.ChatRoom
import AsioTest.ChatPeer
import AsioTest.ChatSession
import AsioTest.ChatReadLoop
import AsioTest.ChatFraming
import AsioTest.ChatBuffers
import AsioTest.ChatServer
import AsioTest.ChatRelaying
import AsioTest.ChatLifetimes
import AsioTest.ChatClient
import AsioTest.ChatClientSending
import AsioTest.ChatClientStalling
import AsioTest.ChatWireForm
import AsioTest.ChatHeaders
import AsioTest.ChatMessageCalls
import AsioTest.ChatClientReading
import AsioTest.ChatEndToEnd
import AsioTest.ChatAgreement
import AsioTest.ActionRequestHandler
import AsioTest.ActionStatements
import AsioTest.ActionRequestParser
import AsioTest.ActionConnection
import AsioTest.ActionCoordinates
import AsioTest.ActionAnswers
import AsioTest.ActionServer
import AsioTest.ActionExchanges
import AsioTest.ActionShutdown
import AsioTest.ActionAccounts
import AsioTest.HandlerAllocator
import AsioTest.AllocatorUsage
import AsioTest.EchoSession
import AsioTest.EchoServer
import AsioTest.EchoClient
import AsioTest.DaytimeServers
import AsioTest.DatagramNetwork
import AsioTest.DaytimeClients
import AsioTest.CountingTimers
import AsioTest.TimerThreads
