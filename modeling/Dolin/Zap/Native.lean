import Dolin.Base.Machine
import Dolin.Zap.Buffer

/-!
# The native methods of one process

`zap.cpp`. A process opens the cache file with `InitNative` and then takes `WriteNative`,
`AsyncFlushNative` and `ExpLogFileNative` calls, one after another. What the operating system
answers (`SysCalls`, and the `fopen` of a rotation) is an input. `enqueued` keeps every
`BufferFlush` handed to `FileFlush::AsyncFlush`, in order; the worker that empties the queue is
in `Dolin.Zap.FileFlush`.
-/

namespace Dolin.Zap

open Region

/-- The arguments of `InitNative`, the cache file's path apart. -/
structure InitArgs where
  logPath : JString
  capacity : Int32
  limitSize : Int32
  compress : Bool

/-- What the system calls of `InitNative` answer: `open`, `fstat`, the two `mmap` calls and
`fopen`. `heap` is what `new char[buffer_size]` happens to hold. -/
structure SysCalls where
  opened : Bool := true
  statted : Bool := true
  dirtyMapped : Bool := true
  mapped : Bool := true
  logOpened : Bool := true
  heap : Bytes := []

/-- The native side of a process: the `Buffer` behind the handle and the global `pFileFlush`. -/
structure Process (Z : Zlib) where
  buffer : Buffer Z
  pFileFlush : Option FlushId
  enqueued : List BufferFlush
  /-- How often `fopen` was called, which names the next stream. -/
  opens : Nat

/-- The `FileFlush` that `InitNative` creates. -/
def newFileFlush : FlushId := 0

/-- What `fopen(path, "ab+")` answers. -/
def fopen (path : JString) (opens : Nat) (ok : Bool) : Option FILE :=
  if ok then some { path := path.utf8, opened := opens } else none

variable {Z : Zlib} (abi : Abi)

/-- `buffer_size` of `InitNative`: the capacity and the header. -/
def InitArgs.bufferSize (args : InitArgs) : Nat :=
  abi.wrap (abi.ofInt args.capacity.toInt + BufferHeader.calculateHeaderLen abi args.logPath.length)

/-- `WriteDirty2File`: what it hands over, and the file after it. The temporary `Buffer` is the
one its constructor makes: only `buffer_ptr` and `buffer_size` are set. -/
def writeDirty2File (Z : Zlib) (sys : SysCalls) (file : Bytes) :
    Option (List BufferFlush × Bytes) := do
  let bufferSize := abi.wrap file.length
  if sys.statted ∧ bufferSize > BufferHeader.calculateHeaderLen abi 0 ∧ sys.dirtyMapped then
    let tmp : Buffer Z := { mem := file.take bufferSize, bufferSize }
    let dataSize ← tmp.getLength abi
    if dataSize > 0 then
      let called ← tmp.callFileFlush abi (some newFileFlush) true
      return (called.handed.toList, (called.buffer.map (·.mem)).getD file)
    else return ([], file)
  else return ([], file)

/-- `ftruncate(fd, static_cast<int>(size))`: a negative length is refused. -/
def ftruncate (file : Bytes) (size : Nat) : Bytes :=
  let length := (Int32.ofNat size).toInt
  if length < 0 then file else resize file length.toNat

/-- `OpenMMap`: what `WriteDirty2File` hands over, and the new mapping where there is one. -/
def openMMap (Z : Zlib) (sys : SysCalls) (file : Bytes) (bufferSize : Nat) :
    Option (List BufferFlush × Option Bytes) := do
  if sys.opened then
    let (handed, file) ← writeDirty2File abi Z sys file
    let file := ftruncate file bufferSize
    return (handed, if sys.mapped then some (file.take bufferSize) else none)
  else return ([], none)

/-- `InitNative` up to `InitData`, which clears the mapping: the new `Buffer`, and what went to
the new `FileFlush` so far. -/
def openBuffer (Z : Zlib) (sys : SysCalls) (file : Bytes) (args : InitArgs) :
    Option (Buffer Z × List BufferFlush) := do
  let bufferSize := args.bufferSize abi
  let (handed, map) ← openMMap abi Z sys file bufferSize
  let buffer : Buffer Z :=
    { mem := map.getD (resize sys.heap bufferSize), bufferSize, mapBuffer := map.isSome }
  let called ← buffer.callFileFlush abi (some newFileFlush) false
  let buffer ← called.buffer
  return (buffer, handed ++ called.handed.toList)

/-- `InitNative` on a cache file that holds `file`. -/
def initNative (Z : Zlib) (sys : SysCalls) (file : Bytes) (args : InitArgs) :
    Option (Process Z) := do
  let (buffer, handed) ← openBuffer abi Z sys file args
  let buffer ← buffer.initData abi args.logPath (abi.ofInt args.limitSize.toInt) args.compress
    (fopen args.logPath 0 sys.logOpened)
  return { buffer, pFileFlush := some newFileFlush, enqueued := handed, opens := 1 }

namespace Process

/-- `buffer->CallFileFlush(pFileFlush)`. -/
def callFileFlush (p : Process Z) : Option (Process Z) := do
  let called ← p.buffer.callFileFlush abi p.pFileFlush false
  let buffer ← called.buffer
  return { p with buffer, enqueued := p.enqueued ++ called.handed.toList }

/-- The first half of `WriteNative`: a flush where the message would fill the buffer. -/
def makeRoom (p : Process Z) (msg : JString) : Option (Process Z) := do
  let empty ← p.buffer.emptySize abi
  if msg.length ≥ empty ∧ p.pFileFlush.isSome then p.callFileFlush abi else some p

/-- `WriteNative`. -/
def writeNative (p : Process Z) (msg : JString) : Option (Process Z) := do
  let p ← p.makeRoom abi msg
  let (buffer, _) ← p.buffer.append abi msg.utf8
  return { p with buffer }

/-- `AsyncFlushNative`. -/
def asyncFlushNative (p : Process Z) : Option (Process Z) :=
  if p.pFileFlush.isSome then p.callFileFlush abi else some p

/-- `ExpLogFileNative`. -/
def expLogFileNative (p : Process Z) (path : JString) (limitSize : Int32) (logOpened : Bool) :
    Option (Process Z) := do
  let called ← p.buffer.expLogPath abi path (abi.ofInt limitSize.toInt)
    (fopen path p.opens logOpened)
  let buffer ← called.buffer
  return { p with buffer, enqueued := p.enqueued ++ called.handed.toList, opens := p.opens + 1 }

/-- `IsLogFileOverSizeNative`, with the sizes of the files. -/
def isLogFileOverSizeNative (p : Process Z) (sizeOf : FILE → Nat) : Option Bool :=
  p.buffer.isCurrentLogFileOversize abi sizeOf

end Process

/-- The calls that `ZapRecord.write` and `ZapRecord.asyncFlush` make while the log file stays. -/
inductive LogCall where
  | write (msg : JString)
  | asyncFlush

/-- The messages of a list of calls, in order. -/
def LogCall.messages : List LogCall → List Bytes
  | [] => []
  | .write msg :: calls => msg.utf8 :: messages calls
  | .asyncFlush :: calls => messages calls

/-- One `WriteNative` or `AsyncFlushNative`, as a step of the process. -/
def logStep (p : Process Z) : LogCall → Option (Process Z)
  | .write msg => p.writeNative abi msg
  | .asyncFlush => p.asyncFlushNative abi

/-- One call into the native library after `InitNative`. -/
inductive NativeCall where
  | log (call : LogCall)
  | expLogFile (path : JString) (limitSize : Int32) (logOpened : Bool)

/-- One native call, as a step of the process. -/
def nativeStep (p : Process Z) : NativeCall → Option (Process Z)
  | .log call => logStep abi p call
  | .expLogFile path limitSize logOpened => p.expLogFileNative abi path limitSize logOpened

end Dolin.Zap
