import FlightsOptimizer.Dict
import FlightsOptimizer.Interruptible
import FlightsOptimizer.Logger
import FlightsOptimizer.LogGrammar
import FlightsOptimizer.Eof
import FlightsOptimizer.Receiver
import FlightsOptimizer.Callback
import FlightsOptimizer.EofCallback
import FlightsOptimizer.Recovery
import FlightsOptimizer.Counters
import FlightsOptimizer.ExactlyOnce
import FlightsOptimizer.Accounting
import FlightsOptimizer.Duplicates
import FlightsOptimizer.Ledger
import FlightsOptimizer.Stage
import FlightsOptimizer.Rounds
import FlightsOptimizer.EofSafety
import FlightsOptimizer.Connection
import FlightsOptimizer.LoadBalancer
import FlightsOptimizer.TokenFlow
import FlightsOptimizer.TokenLife
import FlightsOptimizer.EofOnce
import FlightsOptimizer.Grouper
import FlightsOptimizer.MaxAvgQuery
import FlightsOptimizer.AnnouncedCount
import FlightsOptimizer.Isolation
import FlightsOptimizer.Framing
import FlightsOptimizer.MessageUtils
import FlightsOptimizer.Protocol
import FlightsOptimizer.CommunicationBuffer
import FlightsOptimizer.RoundTrip
import FlightsOptimizer.ResultHandler
import FlightsOptimizer.ResultsListener
import FlightsOptimizer.ProtocolConnection
import FlightsOptimizer.Text
import FlightsOptimizer.Json
import FlightsOptimizer.LineFile
import FlightsOptimizer.LoggerText
import FlightsOptimizer.LogRestore
import FlightsOptimizer.LogDelete
import FlightsOptimizer.LogSearch
import FlightsOptimizer.SecondRound
import FlightsOptimizer.Replay
import FlightsOptimizer.Statefull
import FlightsOptimizer.DosMasRapidos
import FlightsOptimizer.Restart
import FlightsOptimizer.ConnectionRestart
import FlightsOptimizer.LogRefinement
import FlightsOptimizer.RestartedGrouper
import FlightsOptimizer.BinaryFile
import FlightsOptimizer.Chunking
import FlightsOptimizer.QueueMessage
import FlightsOptimizer.TwoFastest
import FlightsOptimizer.FileUploader
import FlightsOptimizer.Hop
import FlightsOptimizer.Barrier
import FlightsOptimizer.FinishAgain
import FlightsOptimizer.Joiner
import FlightsOptimizer.Regex
import FlightsOptimizer.Duration
import FlightsOptimizer.Redelivery
import FlightsOptimizer.RowProcessors
import FlightsOptimizer.RowNetwork
import FlightsOptimizer.RowQueries
import FlightsOptimizer.Directory
import FlightsOptimizer.FileQueries
import FlightsOptimizer.Duplex
import FlightsOptimizer.DuplexProgress
import FlightsOptimizer.HealthChecker
import FlightsOptimizer.LogDirectory
import FlightsOptimizer.FastestQuery
