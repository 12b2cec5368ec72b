import SyscallSensor.Lib.Bits
import SyscallSensor.Lib.Chunks
import SyscallSensor.Lib.Decimal
import SyscallSensor.Lib.EndMarked
import SyscallSensor.Lib.Framing
import SyscallSensor.Lib.Grouping
import SyscallSensor.Lib.Heap
import SyscallSensor.Lib.Joined
import SyscallSensor.Lib.Ledger
import SyscallSensor.Lib.Outcome
import SyscallSensor.Lib.Pieces
import SyscallSensor.Lib.Progress
import SyscallSensor.Lib.Refinement
import SyscallSensor.Lib.RightEnd
import SyscallSensor.Lib.SharedFile
import SyscallSensor.Lib.Transition
import SyscallSensor.StringRef
import SyscallSensor.SplitString
import SyscallSensor.Events
import SyscallSensor.ReadStream
import SyscallSensor.SysRecord
import SyscallSensor.Collect
import SyscallSensor.Ftrace
import SyscallSensor.Syscalls
import SyscallSensor.SafeQueue
import SyscallSensor.Monitor
import SyscallSensor.SendStream
import SyscallSensor.Pipeline
import SyscallSensor.SensorRun
import SyscallSensor.Termination
import SyscallSensor.Sequential
import SyscallSensor.Pointers
import SyscallSensor.Deletions
import SyscallSensor.Encoding
import SyscallSensor.SocketStream
import SyscallSensor.LinuxSocket
import SyscallSensor.FileStream
import SyscallSensor.PacketText
import SyscallSensor.AggrStream
import SyscallSensor.AggrFile
import SyscallSensor.Utils
import SyscallSensor.BaseSensor
import SyscallSensor.LinuxDaemon
import SyscallSensor.Commands
import SyscallSensor.History
import SyscallSensor.Options
import SyscallSensor.LogFiles
import SyscallSensor.Control
import SyscallSensor.Tokenizers
import SyscallSensor.Rotation
import SyscallSensor.Base64
import SyscallSensor.NameColumn
import SyscallSensor.Counters
import SyscallSensor.Status
import SyscallSensor.PackSizes
import SyscallSensor.Descriptors
import SyscallSensor.EndToEnd
import SyscallSensor.LockedRun
import SyscallSensor.LockedEnds
import SyscallSensor.GzStream
import SyscallSensor.AggrDisk
import SyscallSensor.FmtWriter
import SyscallSensor.FmtFormat
import SyscallSensor.FmtRecords
import SyscallSensor.Sessions
