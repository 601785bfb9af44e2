import Mathlib.Logic.Function.Basic
import Dolin.Base.Machine
import Dolin.Zap.BufferFlush

/-!
# The flush queue

`zap_file_flush.cpp`: the threads that call `AsyncFlush`, the worker in `AsyncLogThread` and the
thread in `StopFlush`, one step at a time. A step is one access to something shared: `async_mtx`,
`exit`, `async_buffer` or `async_condition`. `wait` releases the mutex and parks in one step, and
`notify_all` wakes the worker only where it is parked. The memory is sequentially consistent.

`Flush` ends with `delete buffer`, and where it has nothing to write or no file to write to, it runs
off its end without a `return`. Both are undefined. Here the process is taken to go on from there:
the statements about this queue are those of a run that got so far.

The queue does not look into its entries, so they are of any type. `pushed`, `flushed` and
`answered` are histories: no step reads them.
-/

namespace Dolin.Zap

open Region

/-- What `Flush` appends to a file: the payload, where the entry is bound to the file. With no
file, `Flush` writes nothing and does not free the entry either. -/
def BufferFlush.appended (file : FILE) (f : BufferFlush) : Bytes :=
  if f.logFilePtr = some file then f.payload else []

/-- What a list of `Flush` calls appended to a file. -/
def appendedTo (file : FILE) (flushed : List BufferFlush) : Bytes :=
  (flushed.map (BufferFlush.appended file)).flatten

namespace FileFlush

variable {E : Type}

/-- Where the worker stands in `AsyncLogThread`. -/
inductive WorkerPc (E : Type) where
  /-- At the constructor of the `unique_lock`. -/
  | lock
  /-- At the test of the inner loop. -/
  | drain
  /-- An entry is off the queue, and `Flush` has not run. -/
  | flush (e : E)
  /-- At `if (exit)`. -/
  | testExit
  | wait
  | parked
  /-- Notified, and waiting for the mutex. -/
  | woken
  /-- At the end of the loop's body. -/
  | unlock
  | returned
  deriving DecidableEq

/-- The worker holds `async_mtx`. -/
def WorkerPc.holds : WorkerPc E → Bool
  | drain | flush _ | testExit | wait | unlock => true
  | lock | parked | woken | returned => false

/-- What `notify_all` makes of the worker. -/
def WorkerPc.notified : WorkerPc E → WorkerPc E
  | parked => woken
  | pc => pc

/-- The entry that is off the queue and not flushed. -/
def WorkerPc.inHand : WorkerPc E → List E
  | flush e => [e]
  | _ => []

/-- Where a thread stands in `AsyncFlush(e)`. -/
inductive ProducerPc (E : Type) where
  | idle
  | lock (e : E)
  | testExit (e : E)
  | push (e : E)
  | notify (e : E)
  | unlock (e : E) (result : Bool)

/-- The thread holds `async_mtx`. -/
def ProducerPc.holds : ProducerPc E → Bool
  | testExit _ | push _ | notify _ | unlock _ _ => true
  | idle | lock _ => false

/-- The thread is not in `AsyncFlush`. -/
def ProducerPc.isIdle : ProducerPc E → Bool
  | idle => true
  | _ => false

/-- The entry of a thread that has not pushed it yet. -/
def ProducerPc.carries : ProducerPc E → List E
  | lock e | testExit e | push e => [e]
  | idle | notify _ | unlock _ _ => []

/-- Where the destructor's thread stands in `StopFlush`. -/
inductive StopPc where
  | idle
  | notify
  | join
  | joined
  deriving DecidableEq

/-- Who holds `async_mtx`. -/
inductive Owner where
  | worker
  | producer (t : Nat)
  deriving DecidableEq

/-- A `FileFlush` and its threads. -/
structure State (E : Type) where
  exit : Bool := false
  asyncBuffer : List E := []
  asyncMtx : Option Owner := none
  worker : WorkerPc E := .lock
  producers : Nat → ProducerPc E := fun _ => .idle
  stop : StopPc := .idle
  /-- Every `push_back`, in order. -/
  pushed : List E := []
  /-- Every `Flush`, in order. -/
  flushed : List E := []
  /-- Every `AsyncFlush` that returned, with its answer. -/
  answered : List (E × Bool) := []

namespace State

/-- A thread moves on in `AsyncFlush`. -/
def setProducer (s : State E) (t : Nat) (pc : ProducerPc E) : State E :=
  { s with producers := Function.update s.producers t pc }

/-- `async_condition.notify_all()`. -/
def notifyAll (s : State E) : State E := { s with worker := s.worker.notified }

/-- The entries that were pushed and not flushed: the one in the worker's hand, then the queue. -/
def pending (s : State E) : List E := s.worker.inHand ++ s.asyncBuffer

/-- The worker's next step. -/
def workerStep (s : State E) : Option (State E) :=
  match s.worker with
  | .lock =>
    if s.asyncMtx.isNone then some { s with asyncMtx := some .worker, worker := .drain } else none
  | .drain =>
    match s.asyncBuffer.getLast? with
    | some e => some { s with asyncBuffer := s.asyncBuffer.dropLast, worker := .flush e }
    | none => some { s with worker := .testExit }
  | .flush e => some { s with worker := .drain, flushed := s.flushed ++ [e] }
  | .testExit =>
    if s.exit then some { s with asyncMtx := none, worker := .returned }
    else some { s with worker := .wait }
  | .wait => some { s with asyncMtx := none, worker := .parked }
  | .parked => none
  | .woken =>
    if s.asyncMtx.isNone then some { s with asyncMtx := some .worker, worker := .unlock } else none
  | .unlock => some { s with asyncMtx := none, worker := .lock }
  | .returned => none

/-- The next step of a thread in `AsyncFlush`. -/
def producerStep (s : State E) (t : Nat) : Option (State E) :=
  match s.producers t with
  | .idle => none
  | .lock e =>
    if s.asyncMtx.isNone then
      some ({ s with asyncMtx := some (.producer t) }.setProducer t (.testExit e))
    else none
  | .testExit e =>
    if s.exit then some (s.setProducer t (.unlock e false)) else some (s.setProducer t (.push e))
  | .push e =>
    some ({ s with
      asyncBuffer := s.asyncBuffer ++ [e], pushed := s.pushed ++ [e] }.setProducer t (.notify e))
  | .notify e => some (s.notifyAll.setProducer t (.unlock e true))
  | .unlock e result =>
    some ({ s with
      asyncMtx := none, answered := s.answered ++ [(e, result)] }.setProducer t .idle)

/-- The next step of `StopFlush`. It takes no lock. -/
def stopStep (s : State E) : Option (State E) :=
  match s.stop with
  | .idle => some { s with exit := true, stop := .notify }
  | .notify => some { s.notifyAll with stop := .join }
  | .join =>
    match s.worker with
    | .returned => some { s with stop := .joined }
    | _ => none
  | .joined => none

end State

/-- What happens next. -/
inductive Action (E : Type) where
  | worker
  /-- `wait` returns without a notification. -/
  | spurious
  /-- Thread `t` calls `AsyncFlush(e)`. -/
  | call (t : Nat) (e : E)
  | producer (t : Nat)
  | stopFlush

/-- One step of one thread. -/
def step (s : State E) : Action E → Option (State E)
  | .worker => s.workerStep
  | .spurious =>
    match s.worker with
    | .parked => some { s with worker := .woken }
    | _ => none
  | .call t e =>
    match s.producers t with
    | .idle => some (s.setProducer t (.lock e))
    | _ => none
  | .producer t => s.producerStep t
  | .stopFlush => s.stopStep

end FileFlush

end Dolin.Zap
