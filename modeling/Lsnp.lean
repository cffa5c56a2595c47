import Lsnp.Interaction.Program
import Lsnp.Interaction.Service
import Lsnp.Interaction.Ensures
import Lsnp.Interaction.Settled
import Lsnp.Unix.Descriptors
import Lsnp.Unix.Status
import Lsnp.Unix.Kernel
import Lsnp.Unix.Effects
import Lsnp.Unix.Obliging
import Lsnp.Lab.Builtin
import Lsnp.Lab.Execute
import Lsnp.Lab.IsExecutable
import Lsnp.Lab.Stage
import Lsnp.Lab.Calls
import Lsnp.Lab.Ownership
import Lsnp.Lab.Granted
import Lsnp.Lab.Conservation
import Lsnp.Lab.Rounds
import Lsnp.Lab.Waiting
import Lsnp.Lab.ShortCircuit
import Lsnp.Lab.Session
import Lsnp.Lab.Holding
import Lsnp.Lab.System
import Lsnp.Lab.Scenario
import Lsnp.Lab.Zombies
import Lsnp.Lab.Statuses
import Lsnp.Lab.Wiring
import Lsnp.Lab.Readers
import Lsnp.Interaction.Machine
import Lsnp.Libc.Strings
import Lsnp.Structures.Window
import Lsnp.MsgServer.Server
import Lsnp.MsgServer.Queue
import Lsnp.MsgServer.Wakeup
import Lsnp.Libc.Stdio
import Lsnp.SysV.Objects
import Lsnp.SysV.Semaphores
import Lsnp.Handover.Programs
import Lsnp.Handover.Turns
import Lsnp.Handover.Delivery
import Lsnp.Dialogue.Programs
import Lsnp.Dialogue.Exchange
import Lsnp.Dialogue.Ending
import Lsnp.EpollChat.Broadcast
import Lsnp.EpollEcho.Server
import Lsnp.EpollEcho.Readiness
import Lsnp.EpollEcho.Isolation
import Lsnp.Libc.Strtok
import Lsnp.WebServer.Query
import Lsnp.WebServer.Shift
import Lsnp.WebServer.Rpi
import Lsnp.WebServer.Led
import Lsnp.WebServer.Leftovers
import Lsnp.Greeting.Server
import Lsnp.Chatting.Programs
import Lsnp.Chatting.Relay
import Lsnp.Threads.Counter
import Lsnp.Unix.Signals
import Lsnp.Threads.Designated
import Lsnp.Raspi.Controller
import Lsnp.Chatting.Asleep
import Lsnp.Lab.Interrupts
import Lsnp.Lab.Reading
import Lsnp.Lab.Blocks
import Lsnp.Lab.Tokens
import Lsnp.Lab.FastPath
import Lsnp.Lab.Reference
import Lsnp.Lab.Grammar
import Lsnp.Interaction.Forking
import Lsnp.Lab2.IsExecutable
import Lsnp.Lab2.Common
import Lsnp.Lab2.Started
import Lsnp.Lab2.Runs
import Lsnp.WebServer.Fields
import Lsnp.WebServer.Slash
import Lsnp.WebServer.Header
import Lsnp.WebServer.SendData
import Lsnp.Lab.Bounds
import Lsnp.Interaction.History
import Lsnp.Lab.Attached
import Lsnp.Lab.Parsing
import Lsnp.Interaction.Asking
import Lsnp.Lab2.Iteration
import Lsnp.Unix.Replay
import Lsnp.Lab.Willing
import Lsnp.Interaction.Finishing
import Lsnp.PosixShm.Segment
import Lsnp.PosixShm.Instances
import Lsnp.Lab2.Agreement
import Lsnp.Lab.Untraced
import Lsnp.Interaction.Roles
import Lsnp.Lab2.Session
import Lsnp.Lab2.Sealed
import Lsnp.Lab2.Foreground
import Lsnp.WebServer.Accept
import Lsnp.Http.Message
import Lsnp.WebServer.Response
import Lsnp.MsgQueue.Pair
import Lsnp.Lab.Leftover
import Lsnp.Lab.Unstuck
import Lsnp.Lab.Script
import Lsnp.Signals.Counting
import Lsnp.Structures.Deadlines
import Lsnp.MsgServer.Ports
import Lsnp.Lab.Accounts
import Lsnp.Lab.Told
import Lsnp.Fifo.Pair
import Lsnp.Handover.Limit
