import Initd.Library.StepSystem
import Initd.Library.Digraph
import Initd.Library.FirstOccurrence
import Initd.Library.FlagSum
import Initd.Library.Outcome
import Initd.Library.Replay
import Initd.Library.Triple
import Initd.Library.Lockstep
import Initd.Library.Multimap
import Initd.Library.Framing
import Initd.Library.Journal
import Initd.Library.Lines
import Initd.Library.Tiling
import Initd.Library.Reporter
import Initd.Library.Registry
import Initd.Library.Settling
import Initd.Library.Layers
import Initd.Config.TaskData
import Initd.Config.TaskDescriptions
import Initd.Sysapi.FunctionQueue
import Initd.Sysapi.Deliveries
import Initd.Sysapi.Process
import Initd.Sysapi.SigchildHandler
import Initd.Sysapi.ChildExits
import Initd.Sysapi.Epoll
import Initd.Sysapi.EpollRegistrations
import Initd.Tasks.AsyncStartStopTask
import Initd.Tasks.CommandRuns
import Initd.Tasks.AsyncTaskHandle
import Initd.Tasks.HostnameTask
import Initd.Runtime.Task
import Initd.Runtime.Sync
import Initd.Runtime.InitdState
import Initd.Runtime.Construction
import Initd.Runtime.RunLevel
import Initd.Runtime.Safety
import Initd.Runtime.Liveness
import Initd.Runtime.Bookkeeping
import Initd.Runtime.Context
import Initd.Runtime.Shutdown
import Initd.Runtime.Requests
import Initd.Runtime.Control
import Initd.Runtime.Selection
import Initd.Runtime.Termination
import Initd.Runtime.ForkFailure
import Initd.Runtime.Convergence
import Initd.Runtime.Operations
import Initd.Runtime.Machine
import Initd.Runtime.Rest
import Initd.Runtime.Main
import Initd.Runtime.Hostname
import Initd.Runtime.Handles
import Initd.Runtime.Initctl
import Initd.Runtime.ControlServer
import Initd.Runtime.Connections
import Initd.Runtime.Delivery
import Initd.Runtime.ControlProtocol
import Initd.Runtime.Connection
import Initd.Runtime.Fragmentation
import Initd.Lexer.Token
import Initd.Lexer.Lexer
import Initd.Lexer.Loops
import Initd.Lexer.Lexeme
import Initd.Lexer.Correctness
import Initd.Lexer.Scan
import Initd.Lexer.Tiling
import Initd.Lexer.Calls
import Initd.Lexer.RoundTrip
import Initd.Lexer.Literals
import Initd.Parser.Node
import Initd.Parser.Placed
import Initd.Parser.Parser
import Initd.Parser.Grammar
import Initd.Parser.Outline
import Initd.Parser.Steps
import Initd.Parser.Recovery
import Initd.Parser.Declarations
import Initd.Parser.Rounds
import Initd.Parser.Acceptance
import Initd.Parser.Concatenation
import Initd.Parser.ErrorOrder
import Initd.Reader.ReadValueNode
import Initd.Reader.ReadCmdLine
import Initd.Reader.ReadTask
import Initd.Reader.ReadTaskDescription
import Initd.Reader.Reports
import Initd.Reader.Duplicates
import Initd.Reader.CmdLineGrammar
import Initd.Reader.Dereferences
import Initd.Reader.Denotes
import Initd.Reader.Faithful
import Initd.Reader.Resolution
import Initd.Reader.HandOver
import Initd.Reader.Silence
import Initd.Reader.Once
import Initd.Reader.Meaning
import Initd.Lexer.Printable
import Initd.Reader.Describes
import Initd.Reader.Spelling
import Initd.Reader.Expressible
import Initd.Reader.Safety
import Initd.Reader.ReadDescriptions
import Initd.LineMap.LineMap
import Initd.LineMap.Position
import Initd.LineMap.Printable
import Initd.LineMap.Exact
import Initd.Binstream.BinaryStream
import Initd.Binstream.CtlProtocol
import Initd.Binstream.Measure
import Initd.Binstream.Decoding
import Initd.Runtime.DeclaredSize
import Initd.Runtime.FromFile
import Initd.Runtime.Turns
