import Ceclircd.RunTrace
import Ceclircd.UinputMap
import Ceclircd.MainLoop
import Ceclircd.LoopSteps
import Ceclircd.CommandQueue
import Ceclircd.AlertSessions
import Ceclircd.ActiveSource
import Ceclircd.KeyRepeat
import Ceclircd.LoopCleanup
import Ceclircd.SessionEnds
import Ceclircd.LircClients
import Ceclircd.BrokenPipe
import Ceclircd.LineText
import Ceclircd.LockOrder
import Ceclircd.LockThreads
import Ceclircd.KeyNames
import Ceclircd.LineStream
import Ceclircd.HeldKey
import Ceclircd.InputStream
import Ceclircd.HdmiAddress
import Ceclircd.AddressStream
import Ceclircd.CecAdapters
import Ceclircd.PointerChain
import Ceclircd.ClientHeap
import Ceclircd.LircHandles
import Ceclircd.LircSync
import Ceclircd.AcceptThread
import Ceclircd.AddressTokens
import Ceclircd.AddressOutcome
import Ceclircd.CecConfiguration
import Ceclircd.TokenLists
import Ceclircd.AddressLists
import Ceclircd.Getopt
import Ceclircd.CommandLine
import Ceclircd.SocketFiles
import Ceclircd.SocketPath
import Ceclircd.Monitor
import Ceclircd.CommandMonitor
import Ceclircd.HeapRuns
import Ceclircd.ClientText
import Ceclircd.Daemon
import Ceclircd.CecObject
import Ceclircd.CecSessions
import Ceclircd.Program
import Ceclircd.LoopProgress
import Ceclircd.SessionProtocol
import Ceclircd.CloseReturns
import Ceclircd.ListDevices
import Ceclircd.Sections
import Ceclircd.ClientSections
import Ceclircd.SignalHandlers
