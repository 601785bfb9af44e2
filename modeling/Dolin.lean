import Dolin.Laws.Zap.Accounting
import Dolin.Laws.Zap.Representation
import Dolin.Laws.Zap.Recovery
import Dolin.Laws.Zap.HeaderCodec
import Dolin.Laws.Zap.LogPath
import Dolin.Laws.Zap.SizeLimit
import Dolin.Laws.Zap.Compressed
import Dolin.Laws.Zap.FileFlush
import Dolin.Laws.Zap.Writers
import Dolin.Laws.Zap.Release
import Dolin.Laws.Zap.Durability
import Dolin.Laws.Zap.Lifecycle
import Dolin.Laws.Zap.Shutdown
import Dolin.Laws.Zap.Wakeup
import Dolin.Laws.Zap.Parts
import Dolin.Laws.Zap.Day
import Dolin.Laws.Zap.Cleaning
import Dolin.Laws.Zap.Deletion
import Dolin.Laws.Zap.Logcat
import Dolin.Laws.Zap.Format
import Dolin.Laws.Zap.Pool
import Dolin.Laws.Hawkeye.MmapGuard
import Dolin.Laws.Hawkeye.Core
import Dolin.Laws.Hawkeye.Daemon
import Dolin.Laws.Hawkeye.Handshake
import Dolin.Laws.Hawkeye.Receive
import Dolin.Laws.Hawkeye.Report
import Dolin.Laws.Hawkeye.Attach
import Dolin.Laws.Hawkeye.Delivery
import Dolin.Laws.Hawkeye.Monitor
import Dolin.Laws.Hawkeye.Tracking
import Dolin.Laws.Hawkeye.Text
import Dolin.Laws.Hawkeye.Guard
import Dolin.Laws.Hawkeye.Foreground
import Dolin.Laws.Hawkeye.CrashName
import Dolin.Laws.Hawkeye.Sections
import Dolin.Laws.Hawkeye.Logcat
import Dolin.Laws.Hawkeye.Fds
import Dolin.Laws.Hawkeye.FdSections
import Dolin.Laws.Hawkeye.ProcessInfo
import Dolin.Laws.Hawkeye.OtherThreads
import Dolin.Laws.Unwindstack.DwarfMemory
import Dolin.Laws.Unwindstack.Expression
import Dolin.Laws.Unwindstack.Hazards
import Dolin.Laws.Unwindstack.DwarfEntries
import Dolin.Laws.Unwindstack.Maps
import Dolin.Laws.Unwindstack.Symbols
import Dolin.Laws.Unwindstack.MemoryRemote
import Dolin.Laws.Hawkeye.Unwinder
import Dolin.Laws.Hawkeye.BacktraceText
