import Dolin.Zap.BufferFlush
import Dolin.Zap.BufferHeader

/-!
# The log buffer

`zap_buffer.cpp`. A `Buffer` keeps its live region, the bytes between `data_ptr` and `write_ptr`,
in a mapping whose first bytes are the header. Pointers are offsets from `buffer_ptr`; null is
`none`. Every function answers `none` where it would read or write outside the mapping, or
subtract a null pointer from one that is not.

zlib is a parameter: what the code relies on is that `deflate` delivers at most `avail_out` bytes.
-/

namespace Dolin.Zap

open Region

/-- What one `deflate(&zStream, Z_SYNC_FLUSH)` does: whether it answered `Z_OK`, the bytes put at
`next_out`, and the stream afterwards. -/
structure Deflated (Stream : Type) where
  ok : Bool
  out : Bytes
  next : Stream

/-- zlib's deflate side. `deflateInit2` answers the state of a fresh stream, or `none` where it
leaves `zStream.state` null. -/
structure Zlib where
  Stream : Type
  deflateInit2 : Option Stream
  deflate : Stream → Bytes → Nat → Deflated Stream
  out_le : ∀ s input availOut, (deflate s input availOut).out.length ≤ availOut

/-- A `FileFlush *` that is not null. -/
abbrev FlushId := Nat

/-- `Buffer`. The locks are in the interleaving models; here each call runs alone. -/
structure Buffer (Z : Zlib) where
  mem : Bytes
  bufferSize : Nat
  logFilePtr : Option FILE := none
  fileFlushPtr : Option FlushId := none
  dataPtr : Option Nat := none
  writePtr : Option Nat := none
  zStream : Option Z.Stream := none
  compress : Bool := false
  mapBuffer : Bool := true

/-- `p - q` for two pointers into one mapping, or two null pointers. -/
def ptrDiff (abi : Abi) : Option Nat → Option Nat → Option Nat
  | some p, some q => some (abi.sub p q)
  | none, none => some 0
  | _, _ => none

namespace Buffer

variable {Z : Zlib} (abi : Abi)

/-- `GetLength`. -/
def getLength (b : Buffer Z) : Option Nat := ptrDiff abi b.writePtr b.dataPtr

/-- `EmptySize`. -/
def emptySize (b : Buffer Z) : Option Nat := do
  let used ← ptrDiff abi b.writePtr (some 0)
  return abi.sub b.bufferSize used

/-- `SetLength`. -/
def setLength (b : Buffer Z) (len : Nat) : Option (Buffer Z) := do
  let mem ← BufferHeader.setLogLen abi b.mem len
  return { b with mem }

/-- `GetLogPath`. -/
def getLogPath (b : Buffer Z) : Option (Option Bytes) :=
  BufferHeader.getLogPath abi b.mem b.bufferSize

/-- `InitCompress`. A stream that is still there is overwritten, not ended. -/
def initCompress (b : Buffer Z) (compress : Bool) : Buffer Z :=
  if compress then { b with compress, zStream := Z.deflateInit2 } else { b with compress }

/-- `OpenLogFile`: the old stream stays where `fopen` fails, and is never closed. -/
def openLogFile (b : Buffer Z) (file : Option FILE) : Buffer Z :=
  match file with
  | some file => { b with logFilePtr := some file }
  | none => b

/-- The lines of `InitData` after `InitHeader`: `InitCompress`, the pointers that the header gives,
and `OpenLogFile`. -/
def pointed (b : Buffer Z) (compress : Bool) (dataPtr writePtr : Nat) (file : Option FILE) :
    Buffer Z :=
  { b.initCompress compress with
    dataPtr := some dataPtr, writePtr := some writePtr }.openLogFile file

/-- `InitData`. `file` is what `fopen` answers for the path. -/
def initData (b : Buffer Z) (logPath : JString) (limitSize : Nat) (compress : Bool)
    (file : Option FILE) : Option (Buffer Z) := do
  let mem ← fill b.mem 0 b.bufferSize 0
  let header : Header :=
    { magic := kMagicHeader, logLen := 0, logPathLen := logPath.length, logPath := logPath.utf8,
      compress, limitSize }
  let mem ← BufferHeader.initHeader abi mem b.bufferSize header
  let dataPtr ← BufferHeader.getDataPtr abi mem b.bufferSize
  let writePtr ← BufferHeader.getWritePtr abi mem b.bufferSize
  return { b with mem }.pointed compress dataPtr writePtr file

/-- `SetLength(GetLength())`, which ends `Append` and `Clear`. -/
def publish (b : Buffer Z) : Option (Buffer Z) := do
  let len ← b.getLength abi
  b.setLength abi len

/-- The copy `Append` makes at `write_ptr` where it does not compress, and `write_size`. -/
def copyLog (b : Buffer Z) (log : Bytes) : Option (Buffer Z × Option Nat) := do
  let freeSize ← b.emptySize abi
  let writePtr ← b.writePtr
  let writeSize := if log.length ≤ freeSize then log.length else freeSize
  let mem ← store b.mem writePtr (log.take writeSize)
  return ({ b with mem }, some writeSize)

/-- The `deflate` call `Append` makes at `write_ptr` where it compresses, and `write_size` where it
answers `Z_OK`. `avail_in` and `avail_out` are `uInt`. -/
def deflateLog (b : Buffer Z) (log : Bytes) : Option (Buffer Z × Option Nat) := do
  let freeSize ← b.emptySize abi
  let writePtr ← b.writePtr
  match b.zStream with
  -- `deflate` on a null state is `Z_STREAM_ERROR`
  | none => return (b, none)
  | some stream =>
    let availOut := freeSize % 2 ^ 32
    let r := Z.deflate stream (log.take (log.length % 2 ^ 32)) availOut
    let mem ← store b.mem writePtr r.out
    return ({ b with mem, zStream := some r.next },
      if r.ok then some (abi.sub freeSize (availOut - r.out.length)) else none)

/-- `Append` starts a new stream where nothing is live. -/
def restart (b : Buffer Z) (len : Nat) : Buffer Z :=
  if len = 0 then b.initCompress b.compress else b

/-- `Append` up to where it moves `write_ptr`. -/
def putLog (b : Buffer Z) (log : Bytes) : Option (Buffer Z × Option Nat) := do
  let len ← b.getLength abi
  let b := b.restart len
  if b.compress then b.deflateLog abi log else b.copyLog abi log

/-- `write_ptr += write_size`. -/
def moveWritePtr (b : Buffer Z) (writeSize : Nat) : Option (Buffer Z) := do
  let writePtr ← b.writePtr
  return { b with writePtr := some (writePtr + writeSize) }

/-- `Append`: the buffer afterwards and the size it answers. -/
def append (b : Buffer Z) (log : Bytes) : Option (Buffer Z × Nat) := do
  let (b, writeSize) ← b.putLog abi log
  match writeSize with
  | some writeSize =>
    let b ← b.moveWritePtr writeSize
    let b ← b.publish abi
    return (b, writeSize)
  | none => return (b, 0)

/-- `write_ptr = data_ptr`. -/
def rewind (b : Buffer Z) : Buffer Z := { b with writePtr := b.dataPtr }

/-- `memset(write_ptr, '\0', EmptySize())`. -/
def wipe (b : Buffer Z) : Option (Buffer Z) := do
  let writePtr ← b.writePtr
  let empty ← b.emptySize abi
  let mem ← fill b.mem writePtr empty 0
  return { b with mem }

/-- `Clear`. -/
def clear (b : Buffer Z) : Option (Buffer Z) := do
  let b ← b.rewind.wipe abi
  b.publish abi

/-- `deflateEnd` where a stream is open. -/
def endCompress (b : Buffer Z) : Buffer Z := if b.compress then { b with zStream := none } else b

/-- The `BufferFlush` that `CallFileFlush` fills from the live region. -/
def takeFlush (b : Buffer Z) (len : Nat) (release : Bool) : Option BufferFlush := do
  let path ← b.getLogPath abi
  let dataPtr ← b.dataPtr
  let live ← load b.mem dataPtr len
  let flush ← BufferFlush.write abi { logFilePtr := b.logFilePtr, path } live
  return flush.releaseThiz release

/-- What `CallFileFlush` leaves: the buffer, `none` once it is deleted, and what it handed to
`AsyncFlush`. -/
structure Called (Z : Zlib) where
  buffer : Option (Buffer Z)
  handed : Option BufferFlush := none

/-- `CallFileFlush(flush, buffer)`; `release` says that the second argument is this buffer and
not null. -/
def callFileFlush (b : Buffer Z) (flush : Option FlushId) (release : Bool) :
    Option (Called Z) := do
  if flush.isNone then return { buffer := if release then none else some b }
  else
    let len ← b.getLength abi
    if len > 0 then
      let b := b.endCompress
      let flushed ← b.takeFlush abi len release
      let b ← b.clear abi
      return { buffer := some b, handed := some flushed }
    else return { buffer := if release then none else some b }

/-- The first half of `ExpLogPath`: where a log file is open, `CallFileFlush()`, the flush through
the stored `file_flush_ptr`. -/
def flushStored (b : Buffer Z) : Option (Called Z) :=
  if b.logFilePtr.isSome then b.callFileFlush abi b.fileFlushPtr false
  else some { buffer := some b }

/-- `ExpLogPath`. -/
def expLogPath (b : Buffer Z) (path : JString) (limitSize : Nat) (file : Option FILE) :
    Option (Called Z) := do
  let called ← b.flushStored abi
  let b ← called.buffer
  let b ← b.initData abi path limitSize b.compress file
  return { buffer := some b, handed := called.handed }

/-- `GetCurrentLogFileSize`, with the sizes of the files. -/
def getCurrentLogFileSize (b : Buffer Z) (sizeOf : FILE → Nat) : Nat :=
  match b.logFilePtr with
  | none => 0
  | some file => abi.ftell (sizeOf file)

/-- `IsCurrentLogFileOversize`. -/
def isCurrentLogFileOversize (b : Buffer Z) (sizeOf : FILE → Nat) : Option Bool := do
  let limit ← BufferHeader.getLimitSize abi b.mem b.bufferSize
  return decide (limit ≤ b.getCurrentLogFileSize abi sizeOf)

/-- The live region: the bytes between `data_ptr` and `write_ptr`. -/
def live (b : Buffer Z) : Bytes :=
  match b.dataPtr, b.writePtr with
  | some d, some w => slice b.mem d (w - d)
  | _, _ => []

end Buffer

end Dolin.Zap
