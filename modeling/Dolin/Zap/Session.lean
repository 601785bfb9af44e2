import Dolin.Zap.FileFlush
import Dolin.Zap.Native

/-!
# The application thread and the flush worker

One thread makes the native calls that follow `InitNative`, `ReleaseNative` included, and the worker
runs beside it. A native call is cut where the other thread, or a kill of the process, can see a
difference: at each write to the mapping, to a pointer of the buffer, and at each step of
`AsyncFlush` and `StopFlush`.

`ReleaseNative` deletes the buffer only where nothing is live. The destructor then closes the log
file. Where something is live, the buffer goes with the last flush as `release_ptr`, which frees its
memory without the destructor, so the file stays open. Both ways `CallFileFlush` has the `log_mtx`
of that buffer locked, and unlocks it at its end.

The steps of a session go on past what the language leaves undefined. `Hosted` says where that is:
at the end of `Flush` and at that unlock.
-/

namespace Dolin.Zap

open Region

/-- The live region as the header of the mapping counts it: what a kill of the process leaves. -/
def Buffer.counted {Z : Zlib} (abi : Abi) (b : Buffer Z) : Bytes :=
  match b.dataPtr, loadWord abi.sizeofSizeT b.mem 1 with
  | some d, some len => slice b.mem d len
  | _, _ => []

/-- What the caller of `CallFileFlush` does next. -/
inductive After where
  /-- `AsyncFlushNative` returns. -/
  | done
  /-- `WriteNative` appends the message. -/
  | append (msg : JString)
  /-- `ReleaseNative` deletes `pFileFlush`. -/
  | stop
  deriving DecidableEq

/-- The second argument of `CallFileFlush` is the buffer. -/
def After.release : After → Bool
  | .stop => true
  | _ => false

/-- Where the application thread stands. -/
inductive AppPc where
  | idle
  /-- In `WriteNative`, at the comparison with `EmptySize()`. -/
  | check (msg : JString)
  /-- At the test of `GetLength()` in `CallFileFlush`. -/
  | callFileFlush (after : After)
  /-- In `CallFileFlush` with the copy made, at the three lines of `Clear`. -/
  | rewind (f : BufferFlush) (after : After)
  | wipe (f : BufferFlush) (after : After)
  | publish (f : BufferFlush) (after : After)
  /-- At the call of `AsyncFlush`, and inside it. -/
  | asyncFlush (f : BufferFlush) (after : After)
  | enqueue (after : After)
  /-- At the start of `Append`, and at its last two lines, with what was copied. -/
  | append (msg : JString)
  | move (writeSize : Nat) (copied : Bytes)
  | finish (copied : Bytes)
  /-- In `StopFlush`, from the destructor of `pFileFlush`. -/
  | stopFlush
  | released

/-- Where the thread stands once `CallFileFlush` is done. -/
def After.next : After → AppPc
  | .done => .idle
  | .append msg => .append msg
  | .stop => .stopFlush

/-- Where `CallFileFlush` leaves the thread that runs it. -/
def AppPc.called (after : After) : Option BufferFlush → AppPc
  | some f => .asyncFlush f after
  | none => after.next

/-- The thread is inside `AsyncFlush`. -/
def AppPc.inside : AppPc → Bool
  | .enqueue _ => true
  | _ => false

/-- The thread is in `StopFlush`, or past it. -/
def AppPc.stopping : AppPc → Bool
  | .stopFlush | .released => true
  | _ => false

/-- The flush that the thread has made and not given to `AsyncFlush`. -/
def AppPc.holding : AppPc → List BufferFlush
  | .rewind f _ | .wipe f _ | .publish f _ | .asyncFlush f _ => [f]
  | _ => []

/-- Where `ExpLogPath` leaves the thread: what it handed over is still to be enqueued. -/
def AppPc.handing : Option BufferFlush → AppPc
  | some f => .asyncFlush f .done
  | none => .idle

/-- Where `Append` goes on, by `write_size`. -/
def AppPc.appending (log : Bytes) : Option Nat → AppPc
  | some n => .move n (log.take n)
  | none => .idle

/-- The native calls. `logOpened` says whether `fopen` succeeds. -/
inductive AppCall where
  | write (msg : JString)
  | asyncFlush
  | expLogFile (path : JString) (limitSize : Int32) (logOpened : Bool)
  | release

/-- What happens next. -/
inductive SessionAction where
  | call (c : AppCall)
  /-- The next step of the application thread. -/
  | app
  | worker
  | spurious

/-- A process from `InitNative` on. `buffer` is `none` once it is deleted, `acked` keeps what each
completed `Append` copied, and `closed` the files that `Buffer::Release` closed. -/
structure Session (Z : Zlib) where
  buffer : Option (Buffer Z)
  fileFlush : FileFlush.State BufferFlush := {}
  app : AppPc := .idle
  opens : Nat
  acked : List Bytes := []
  closed : List FILE := []

/-- The flushes on the heap: the worker's hand, the queue, and the application thread's hands. -/
def Session.onHeap {Z : Zlib} (s : Session Z) : List BufferFlush :=
  s.fileFlush.pending ++ (s.app.holding ++ (s.fileFlush.producers 0).carries)

/-- The session after `InitNative`. -/
def Session.start {Z : Zlib} (p : Process Z) : Session Z :=
  { buffer := some p.buffer, opens := p.opens }

namespace Session

variable {Z : Zlib} (abi : Abi)

/-- A step of the queue. -/
def queueStep (s : Session Z) (a : FileFlush.Action BufferFlush) : Option (Session Z) := do
  let fileFlush ← FileFlush.step s.fileFlush a
  return { s with fileFlush }

/-- The first step of a native call. -/
def begin (s : Session Z) : AppCall → Option (Session Z)
  | .write msg => some { s with app := .check msg }
  | .asyncFlush => some { s with app := .callFileFlush .done }
  | .expLogFile path limitSize logOpened => do
    let b ← s.buffer
    let called ← b.expLogPath abi path (abi.ofInt limitSize.toInt) (fopen path s.opens logOpened)
    let b ← called.buffer
    return { s with buffer := some b, app := .handing called.handed, opens := s.opens + 1 }
  | .release => some { s with app := .callFileFlush .stop }

/-- The test in `CallFileFlush`: the flush that is taken from the live region, or the end of the
call, which deletes the buffer where it was given. -/
def takeOrLeave (s : Session Z) (b : Buffer Z) (after : After) (len : Nat) : Option (Session Z) :=
  if len > 0 then do
    let f ← b.endCompress.takeFlush abi len after.release
    return { s with buffer := some b.endCompress, app := .rewind f after }
  else if after.release then
    some { s with buffer := none, closed := s.closed ++ b.logFilePtr.toList, app := after.next }
  else some { s with app := after.next }

/-- The next step of the application thread, as thread 0 of the queue. -/
def appStep (s : Session Z) : Option (Session Z) :=
  match s.app with
  | .idle => none
  | .check msg => do
    let b ← s.buffer
    let empty ← b.emptySize abi
    return { s with app := if msg.length ≥ empty then .callFileFlush (.append msg) else .append msg }
  | .callFileFlush after => do
    let b ← s.buffer
    let len ← b.getLength abi
    s.takeOrLeave abi b after len
  | .rewind f after => do
    let b ← s.buffer
    return { s with buffer := some b.rewind, app := .wipe f after }
  | .wipe f after => do
    let b ← s.buffer
    let b ← b.wipe abi
    return { s with buffer := some b, app := .publish f after }
  | .publish f after => do
    let b ← s.buffer
    let b ← b.publish abi
    return { s with buffer := some b, app := .asyncFlush f after }
  | .asyncFlush f after => do
    let s ← s.queueStep (.call 0 f)
    return { s with app := .enqueue after }
  | .enqueue after => do
    let s ← s.queueStep (.producer 0)
    return { s with app := if (s.fileFlush.producers 0).isIdle then after.next else .enqueue after }
  | .append msg => do
    let b ← s.buffer
    let (b, writeSize) ← b.putLog abi msg.utf8
    return { s with buffer := some b, app := .appending msg.utf8 writeSize }
  | .move n copied => do
    let b ← s.buffer
    let b ← b.moveWritePtr n
    return { s with buffer := some b, app := .finish copied }
  | .finish copied => do
    let b ← s.buffer
    let b ← b.publish abi
    return { s with buffer := some b, app := .idle, acked := s.acked ++ [copied] }
  | .stopFlush => do
    let s ← s.queueStep .stopFlush
    return { s with app := if s.fileFlush.stop = .joined then .released else .stopFlush }
  | .released => none

/-- One step of one thread. -/
def step (s : Session Z) : SessionAction → Option (Session Z)
  | .call c =>
    match s.app with
    | .idle => s.begin abi c
    | _ => none
  | .app => s.appStep abi
  | .worker => s.queueStep .worker
  | .spurious => s.queueStep .spurious

end Session

/-! ## Past the end of the language -/

/-- What compiler and library make of what the language leaves undefined: whether the process goes
on. -/
structure Platform where
  /-- After a `delete[]` of each of these pointers. -/
  deletes : List BufferFlush.Deleted → Bool
  deletes_of_deletable : ∀ ps, BufferFlush.Deletable ps → deletes ps = true
  /-- At the end of `Flush`, which has no `return` there. -/
  flowsOff : Bool
  /-- After the unlock of a mutex in memory that was freed. -/
  unlocksFreed : Bool

/-- The process goes on after `Flush(f)`. -/
def Platform.flushes (platform : Platform) (f : BufferFlush) : Bool :=
  if f.logFilePtr.isSome ∧ f.getLength > 0 then platform.deletes f.deletes else platform.flowsOff

namespace Session

variable {Z : Zlib} (abi : Abi) (platform : Platform)

/-- The process goes on after the thread's step in `AsyncFlush`: a refused flush is deleted there, and
`CallFileFlush`, which returns behind it, unlocks a buffer that was freed with the flush. -/
def enqueueSurvives (s : Session Z) : Bool :=
  match s.fileFlush.producers 0 with
  | .testExit f => !s.fileFlush.exit || platform.deletes f.deletes
  | .unlock f result =>
    if f.release ∧ (result = false ∨ f ∈ s.fileFlush.flushed) then platform.unlocksFreed else true
  | _ => true

/-- The process goes on after the step. `CallFileFlush` unlocks the buffer that it has just deleted. -/
def survives (s : Session Z) : SessionAction → Bool
  | .worker =>
    match s.fileFlush.worker with
    | .flush f => platform.flushes f
    | _ => true
  | .app =>
    match s.app, s.buffer with
    | .callFileFlush after, some b =>
      if after.release ∧ b.getLength abi = some 0 then platform.unlocksFreed else true
    | .enqueue _, _ => s.enqueueSurvives platform
    | _, _ => true
  | _ => true

end Session

/-- A session on a platform, and whether its process has ended in one of these places. -/
structure Hosted (Z : Zlib) where
  session : Session Z
  ended : Bool := false

/-- One step of one thread. Where the process ends in it, what the step did is done. -/
def Hosted.step {Z : Zlib} (abi : Abi) (platform : Platform) (h : Hosted Z) (a : SessionAction) :
    Option (Hosted Z) :=
  if h.ended then none
  else (h.session.step abi a).map fun s =>
    { session := s, ended := !h.session.survives abi platform a }

end Dolin.Zap
