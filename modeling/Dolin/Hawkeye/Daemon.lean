import Dolin.Hawkeye.MmapGuard
import Dolin.Hawkeye.Private

/-!
# Starting and stopping the daemon

`StartDaemon`, `StopDaemon` and `_SetNonBlock` of `hawkeye_daemon.cpp`, over the process's table of
descriptors. The outcomes of the system calls are arguments.

The condition that makes the two ends of the pipe non-blocking has a bracket in the wrong place: the
argument of the outer `_SetNonBlock` is the truth value of
`interrupter[0] || !_SetNonBlock(interrupter[1])`.
-/

namespace Dolin.Hawkeye.Daemon

open Region

/-- `hawkeye_daemon_context`. Whether there is a daemon thread stands for `daemon_thread`, which is
zero before the thread is created. -/
structure Context where
  logFolderPath : Option Bytes := none
  logFilePath : Option Bytes := none
  mmapGuard : Option MmapGuard := none
  interrupter : Nat × Nat := (0, 0)
  daemonThread : Bool := false
  socketAddress : SockaddrUn

/-- The descriptors: whether one is open, and then whether it is non-blocking. -/
abbrev Fds := Nat → Option Bool

/-- The daemon's process. `threads` are the daemon threads that run. -/
structure State where
  daemonContext : Option Context := none
  fds : Fds
  threads : Nat := 0

/-- The outcomes of the two calls of `fcntl` in `_SetNonBlock`. -/
structure Fcntl where
  getfl : Bool
  setfl : Bool

/-- `_SetNonBlock`. -/
def setNonBlock (fds : Fds) (fd : Nat) (fcntl : Fcntl) : Fds × Bool :=
  if !fcntl.getfl then (fds, false)
  else if fds fd = some true then (fds, true)
  else if !fcntl.setfl then (fds, false)
  else (Function.update fds fd ((fds fd).map fun _ => true), true)

/-- `_SetNonBlock(interrupter[0] || !_SetNonBlock(interrupter[1]))`. -/
def setInterrupter (fds : Fds) (interrupter : Nat × Nat) (inner outer : Fcntl) : Fds × Bool :=
  if interrupter.1 ≠ 0 then setNonBlock fds 1 outer
  else
    match setNonBlock fds interrupter.2 inner with
    | (fds, true) => setNonBlock fds 0 outer
    | (fds, false) => setNonBlock fds 1 outer

/-- The outcomes of the system calls in `StartDaemon`: of `pipe`, with its two descriptors, of the
calls of `fcntl` on the second end and of the outer calls, of `pthread_create`, and of the `open` and
the `mmap` of the report buffer. -/
structure StartOutcome where
  pipe : Option (Nat × Nat)
  inner : Fcntl
  outer : Fcntl
  pthreadCreate : Bool
  opens : Bool := true
  maps : Bool := true

/-- `StopDaemon`, with the outcome of the write to the pipe. -/
def stopDaemon (s : State) (writes : Bool) : State × Bool :=
  match s.daemonContext with
  | none => (s, false)
  | some context =>
    if context.daemonThread then
      if writes then
        -- the thread is joined, and both ends are closed
        ({ daemonContext := none
           fds := Function.update (Function.update s.fds context.interrupter.1 none)
             context.interrupter.2 none
           threads := s.threads - 1 }, true)
      else (s, false)
    else ({ s with daemonContext := none }, true)

/-- The first 255 bytes: what `snprintf` leaves in a buffer of 256. -/
def snprintf256 (text : Bytes) : Bytes := text.take 255

/-- The path of the report buffer. -/
def bufferPath (logFolderPath : Bytes) : Bytes :=
  snprintf256 (logFolderPath ++ "/native_log.temp".toUTF8.toList)

/-- The context that `StartDaemon` fills before it opens the pipe. -/
def newContext (socketName : JString) (logFolderPath : Option JString) (o : StartOutcome) : Context :=
  match logFolderPath with
  | none => { socketAddress := fillSockAddr socketName }
  | some folder =>
    if folder.utf8 = [] then { socketAddress := fillSockAddr socketName }
    else
      { logFolderPath := some folder.utf8
        mmapGuard := some (MmapGuard.new (some (bufferPath folder.utf8)) (400 * 1024) o.opens o.maps)
        socketAddress := fillSockAddr socketName }

/-- The two descriptors that `pipe` opens were closed. -/
def State.Free (s : State) (interrupter : Nat × Nat) : Prop :=
  interrupter.1 ≠ interrupter.2 ∧ s.fds interrupter.1 = none ∧ s.fds interrupter.2 = none

instance (s : State) (interrupter : Nat × Nat) : Decidable (s.Free interrupter) :=
  inferInstanceAs (Decidable (_ ∧ _ ∧ _))

/-- `StartDaemon` from the call of `pipe` on, with the context it has filled. -/
def startPipe (s : State) (context : Context) (o : StartOutcome) : State × Bool :=
  match o.pipe with
  | none => ((stopDaemon { s with daemonContext := some context } false).1, false)
  | some interrupter =>
    let fds := Function.update (Function.update s.fds interrupter.1 (some false))
      interrupter.2 (some false)
    match setInterrupter fds interrupter o.inner o.outer with
    | (fds, false) =>
      ((stopDaemon { s with daemonContext := some { context with interrupter }, fds } false).1, false)
    | (fds, true) =>
      if o.pthreadCreate then
        ({ daemonContext := some { context with interrupter, daemonThread := true }
           fds, threads := s.threads + 1 }, true)
      else ({ s with daemonContext := some { context with interrupter }, fds }, false)

/-- `StartDaemon` gets past its first two tests. -/
def State.Ready (s : State) (socketName : Option JString) : Prop :=
  s.daemonContext.isNone ∧ ∃ name ∈ socketName, name.utf8 ≠ []

/-- `StartDaemon`. -/
def startDaemon (s : State) (socketName logFolderPath : Option JString) (o : StartOutcome) :
    State × Bool :=
  if s.daemonContext.isSome then (s, false)
  else
    match socketName with
    | none => (s, false)
    | some name =>
      if name.utf8 = [] then (s, false) else startPipe s (newContext name logFolderPath o) o

/-- A call, with the outcomes of its system calls. -/
inductive Call where
  | startDaemon (socketName logFolderPath : Option JString) (o : StartOutcome)
  | stopDaemon (writes : Bool)

/-- The kernel can answer the call like this: the ends of a new pipe are descriptors that were not
open. -/
def Call.Possible (s : State) : Call → Prop
  | .startDaemon _ _ o => ∀ interrupter ∈ o.pipe, s.Free interrupter
  | .stopDaemon _ => True

instance (s : State) : (c : Call) → Decidable (c.Possible s)
  | .startDaemon _ _ o => inferInstanceAs (Decidable (∀ interrupter ∈ o.pipe, s.Free interrupter))
  | .stopDaemon _ => isTrue trivial

/-- The process after a call. -/
def step (s : State) (c : Call) : Option State :=
  if c.Possible s then
    match c with
    | .startDaemon socketName logFolderPath o => some (startDaemon s socketName logFolderPath o).1
    | .stopDaemon writes => some (stopDaemon s writes).1
  else none

end Dolin.Hawkeye.Daemon
