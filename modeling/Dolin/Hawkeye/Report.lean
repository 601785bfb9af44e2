import Dolin.Hawkeye.Daemon

/-!
# Writing a native crash report

`PtraceAttach`, `PtraceDetach`, `DaemonCreateReport` and the end of `DaemonProcessClient` in
`hawkeye_daemon.cpp`. What the daemon meets on the way is in a `World`: how each `PTRACE_ATTACH` ends,
the names in `/proc/<pid>/task`, the clock, what each part of the report records, and whether the
report file can be opened.

A report is the list of its parts. What a part records goes to the report buffer of the context,
where there is one.
-/

namespace Dolin.Hawkeye.Daemon

open Region

/-- `hawkeye_crash_message`. -/
structure CrashMessage where
  pid : Int
  tid : Int
  signo : Int
  siCode : Int
  faultAddr : Nat
  context : Bytes

/-- How an attach ends: `PTRACE_ATTACH` fails, `waitpid` fails, the thread is not stopped, or all is
well. -/
inductive AttachOutcome where
  | attachFails
  | waitFails
  | notStopped
  | stopped
  deriving DecidableEq

/-- `PtraceAttach`. -/
def ptraceAttach : AttachOutcome → Bool
  | .stopped => true
  | .attachFails | .waitFails | .notStopped => false

/-- A part of the report: the header, the stack of the crashing thread, the header and the stack of
another thread, and what comes after. -/
inductive Part where
  | header
  | crashThread (tid : Int)
  | otherThread (tid : Int)
  | logcat
  | fds
  | network
  | lastLine
  deriving DecidableEq

/-- What the daemon meets when it creates a report. -/
structure World where
  /-- The outcome of an attach to a thread, after the attaches before it. -/
  ptrace : List Int → Int → AttachOutcome
  /-- The names in `/proc/<pid>/task`, as `readdir` gives them. -/
  tasks : List (List Char)
  /-- `tv_sec * 1000 * 1000 + tv_usec`. -/
  crashTime : Int
  /-- What the functions that write a part record, of the header behind its first line. -/
  dump : CrashMessage → Part → List RecordCall
  /-- What lies behind the newline in the memory that `RecordNewline` gets for a line. -/
  behind : Part → Bytes := fun _ => []
  /-- The outcome of the `fopen` in `Flush`. -/
  opens : Bool := true

/-- The loop that attaches to the other threads: a thread that is not attached becomes 0. -/
def attachThreads (ptrace : List Int → Int → AttachOutcome) : List Int → List Int → List Int
  | _, [] => []
  | attempts, tid :: tids =>
    (if ptraceAttach (ptrace attempts tid) then tid else 0) ::
      attachThreads ptrace (attempts ++ [tid]) tids

/-- `%020ld`. -/
def format020 (n : Int) : List Char :=
  let digits := Nat.toDigits 10 n.natAbs
  if n < 0 then '-' :: (List.replicate (19 - digits.length) '0' ++ digits)
  else List.replicate (20 - digits.length) '0' ++ digits

/-- An ASCII text as bytes. -/
def ascii (text : List Char) : Bytes := text.map fun c => UInt8.ofNat c.toNat

/-- `log_file_path`: the first 255 bytes of the folder, `/hawkeye_`, the time and
`.native.crash`. -/
def crashLogPath (logFolderPath : Bytes) (crashTime : Int) : Bytes :=
  snprintf256 (logFolderPath ++ (ascii "/hawkeye_".toList ++ ascii (format020 crashTime) ++
    ascii ".native.crash".toList))

/-- `SEP_HEAD`. -/
def SEP_HEAD : Bytes :=
  ascii "*** *** *** *** *** *** *** *** *** *** *** *** *** *** *** ***".toList

/-- The calls that record a part. The header begins with its marker, and the last line is a space. -/
def Part.calls (w : World) (message : CrashMessage) : Part → List RecordCall
  | .header => .recordNewline (some SEP_HEAD) (w.behind .header) :: w.dump message .header
  | .lastLine => [.recordNewline (some (ascii [' '])) (w.behind .lastLine)]
  | part => w.dump message part

/-- The threads that `DaemonCreateReport` is attached to beside the crashing one, with 0 for those
that it could not attach to. -/
def otherTids (w : World) (message : CrashMessage) : List Int :=
  attachThreads w.ptrace [message.tid] (getThreads message.pid 64 w.tasks)

/-- The parts of a report, in order. -/
def reportParts (w : World) (message : CrashMessage) : List Part :=
  .header :: .crashThread message.tid ::
    ((otherTids w message).filter (· ≠ 0)).map .otherThread ++
    [.logcat, .fds, .network, .lastLine]

/-- The threads that are detached at the end. -/
def detachedTids (w : World) (message : CrashMessage) : List Int :=
  message.tid :: (otherTids w message).filter (· ≠ 0)

/-- There is a report buffer, and it is mapped. Without one the functions that record do nothing. -/
def Context.hasBuffer (context : Context) : Bool :=
  match context.mmapGuard with
  | some { bufferPtr := .mapped _ } => true
  | _ => false

/-- The parts that `DaemonCreateReport` writes to the report buffer. -/
def writtenParts (w : World) (context : Context) (message : CrashMessage) : List Part :=
  if ptraceAttach (w.ptrace [] message.tid) && context.hasBuffer then reportParts w message else []

/-- What `DaemonCreateReport` leaves. -/
structure Report where
  returned : Bool
  parts : List Part
  detached : List Int
  context : Context
  files : Files

/-- The buffer after all parts are recorded. -/
def recordedGuard (w : World) (message : CrashMessage) (g : MmapGuard) : MmapGuard :=
  (performAll g ((reportParts w message).flatMap (Part.calls w message))).1

/-- The context with the path of the report's file, where there is a folder. -/
def Context.withLogFilePath (context : Context) (crashTime : Int) : Context :=
  match context.logFolderPath with
  | none => context
  | some folder => { context with logFilePath := some (crashLogPath folder crashTime) }

/-- What is left of the buffer and the files once the report is recorded: where there is a buffer it
is flushed and deleted. `none` where a null pointer is used. -/
def flushReport (w : World) (context : Context) (files : Files) (message : CrashMessage) :
    Option (Context × Files) :=
  match context.mmapGuard, context.logFilePath with
  | none, _ => some (context, files)
  | some _, none => none
  | some g, some path =>
    ((recordedGuard w message g).flush path w.opens files).map fun files =>
      ({ context with mmapGuard := none }, files)

/-- `DaemonCreateReport`. -/
def daemonCreateReport (w : World) (context : Context) (files : Files) (message : CrashMessage) :
    Option Report :=
  if ptraceAttach (w.ptrace [] message.tid) then
    (flushReport w (context.withLogFilePath w.crashTime) files message).map fun flushed =>
      { returned := true, parts := writtenParts w context message
        detached := detachedTids w message, context := flushed.1, files := flushed.2 }
  else some { returned := false, parts := [], detached := [], context, files }

/-- The end of `DaemonProcessClient`: the path that `crash_callback` is called with. The callback is
set by `ZygoteCxxCrashDaemon`, which is the only caller of `StartDaemon`. -/
def crashCallback (report : Report) : Option Bytes :=
  if report.returned then report.context.logFolderPath else none

/-- A message that was accepted, the files before it, and what `DaemonCreateReport` left. -/
structure Handled where
  world : World
  message : CrashMessage
  before : Files
  report : Report

/-- The accept loop of `DaemonFunction`, over complete messages. The context is the same one in every
round. -/
def acceptAll (context : Context) (files : Files) :
    List (World × CrashMessage) → Option (List Handled)
  | [] => some []
  | (world, message) :: rest =>
    match daemonCreateReport world context files message with
    | none => none
    | some report =>
      (acceptAll report.context report.files rest).map fun handled =>
        { world, message, before := files, report } :: handled

end Dolin.Hawkeye.Daemon
