import Mathlib.Logic.Function.Basic
import Dolin.Base.Machine

/-!
# The handshake of a crash

The processes that crash, the daemon thread and the thread in `StopDaemon`, one step at a time: the
socket part of `HawkeyeCore::SignalHandler`, the accept loop of `DaemonFunction`, the receive loop of
`DaemonProcessClient`, and the pipe by which `StopDaemon` interrupts `select`.

A client connects, sends its message with one call of `send`, waits for one byte and closes. Its
bytes arrive at the daemon's end one piece after the other, and `recv` gives any piece of what has
arrived. Both calls of `select` are at a set of descriptors of their own, and return once one of the
set is ready. Every system call of the daemon can fail.

`size` is the size of `hawkeye_crash_message`, and `outcomes` gives for each client what its `send`
returns: a number of bytes, or `none` for an error.
-/

namespace Dolin.Hawkeye.Handshake

/-- Where a crashing process stands in `SignalHandler`. -/
inductive ClientPc where
  | idle
  /-- In `send`, of which `delivered` bytes have arrived. -/
  | sending (delivered : Nat)
  /-- In the blocking `recv`. -/
  | waiting
  | closing
  | closed
  deriving DecidableEq

/-- A crashing process and its connection: the bytes that have arrived at the daemon's end and were
not received, the byte of the reply, and whether the daemon has closed its end. -/
structure Client where
  pc : ClientPc := .idle
  inFlight : Nat := 0
  reply : Bool := false
  peerClosed : Bool := false
  deriving DecidableEq

/-- Where the daemon thread stands. -/
inductive DaemonPc where
  /-- In the `select` of `DaemonFunction`. -/
  | acceptSelect
  | accept
  /-- In the `select` of `DaemonProcessClient`, with `overallRead` bytes of the message. -/
  | recvSelect (client overallRead : Nat)
  | recv (client overallRead : Nat)
  /-- In `DaemonCreateReport`. -/
  | report (client : Nat)
  | reply (client : Nat)
  | close (client : Nat)
  | returned
  deriving DecidableEq

/-- Where the thread stands in `StopDaemon`. -/
inductive StopPc where
  | idle
  /-- The byte is in the pipe, and the thread is in `pthread_join`. -/
  | join
  | joined
  deriving DecidableEq

/-- A descriptor that `select` can look at. -/
inductive Fd where
  | listener
  /-- `interrupter[0]`. -/
  | interrupter
  | socket (client : Nat)
  deriving DecidableEq

/-- The `fd_set` of the call of `select` that the daemon is in. -/
def DaemonPc.flag : DaemonPc → List Fd
  | acceptSelect => [.listener, .interrupter]
  | recvSelect client _ => [.socket client]
  | _ => []

structure State where
  clients : Nat → Client := fun _ => {}
  /-- The connections that were not accepted yet. -/
  backlog : List Nat := []
  daemon : DaemonPc := .acceptSelect
  /-- There is a byte in the pipe. Nobody reads it. -/
  pipe : Bool := false
  stop : StopPc := .idle

namespace State

def setClient (s : State) (c : Nat) (client : Client) : State :=
  { s with clients := Function.update s.clients c client }

/-- A descriptor can be read without blocking. A socket whose peer has closed is at its end. -/
def ready (s : State) : Fd → Bool
  | .listener => !s.backlog.isEmpty
  | .interrupter => s.pipe
  | .socket c => 0 < (s.clients c).inFlight || (s.clients c).pc = .closed

/-- What is left in the `fd_set` when `select` returns. -/
def selected (s : State) : List Fd := s.daemon.flag.filter s.ready

/-- The daemon is in a `select` that nothing makes return. -/
def Blocked (s : State) : Prop := s.daemon.flag ≠ [] ∧ s.selected = []

instance (s : State) : Decidable s.Blocked := inferInstanceAs (Decidable (_ ∧ _))

/-- `close(socket_fd)` and back to the accept loop. -/
def closeSocket (s : State) (c : Nat) : State :=
  { s.setClient c { s.clients c with peerClosed := true } with daemon := .acceptSelect }

/-- `close(listener)`, which also resets the connections that were not accepted. -/
def closeListener (s : State) : State :=
  { s with
    clients := fun c =>
      if c ∈ s.backlog then { s.clients c with peerClosed := true } else s.clients c
    backlog := []
    daemon := .returned }

end State

/-- How a system call of the daemon goes: it fails, it succeeds, or `recv` returns a number of
bytes. -/
inductive Outcome where
  | fails
  | succeeds
  | bytes (n : Nat)
  deriving DecidableEq

/-- `recv` can return `n` where `room` bytes are asked for: a piece of what has arrived, or 0 at the
end of the stream. -/
def Client.Gives (client : Client) (room n : Nat) : Prop :=
  0 < n ∧ n ≤ client.inFlight ∧ n ≤ room ∨
    n = 0 ∧ client.inFlight = 0 ∧ client.pc = .closed

instance (client : Client) (room n : Nat) : Decidable (client.Gives room n) :=
  inferInstanceAs (Decidable (_ ∨ _))

/-- The daemon has received `n` bytes more: on with the loop, or out of it. -/
def State.received (s : State) (size c overallRead n : Nat) : State :=
  { s.setClient c { s.clients c with inFlight := (s.clients c).inFlight - n } with
    daemon := if overallRead + n < size then .recvSelect c (overallRead + n) else .report c }

/-- The daemon thread's next step. -/
def daemonStep (size : Nat) (s : State) (outcome : Outcome) : Option State :=
  match s.daemon, outcome with
  | .acceptSelect, .succeeds =>
    if s.selected = [] then none
    else if .interrupter ∈ s.selected then some s.closeListener
    else some { s with daemon := .accept }
  | .acceptSelect, .fails => some s.closeListener
  | .accept, .succeeds =>
    match s.backlog with
    | [] => none
    | c :: backlog => some { s with daemon := .recvSelect c 0, backlog }
  | .accept, .fails => some { s with daemon := .acceptSelect }
  | .recvSelect c overallRead, .succeeds =>
    if s.selected = [] then none
    else if .interrupter ∈ s.selected then some (s.closeSocket c)
    else some { s with daemon := .recv c overallRead }
  | .recvSelect c _, .fails => some (s.closeSocket c)
  | .recv c overallRead, .bytes n =>
    if (s.clients c).Gives (size - overallRead) n then some (s.received size c overallRead n)
    else none
  | .recv c _, .fails => some (s.closeSocket c)
  | .report c, .succeeds => some { s with daemon := .reply c }
  | .reply c, .succeeds =>
    some { s.setClient c { s.clients c with reply := true } with daemon := .close c }
  | .reply c, .fails => some { s with daemon := .close c }
  | .close c, .succeeds => some (s.closeSocket c)
  | _, _ => none

/-- The bytes that the `send` of a client puts on the wire. -/
def sentBytes (outcomes : Nat → Option Nat) (c : Nat) : Nat := (outcomes c).getD 0

/-- What happens next. -/
inductive Action where
  /-- Client `c` connects. -/
  | connect (c : Nat)
  /-- `n` more bytes of what client `c` sends arrive. -/
  | deliver (c n : Nat)
  /-- The `send` of client `c` returns. -/
  | sent (c : Nat)
  /-- The `recv` of client `c` returns: the reply, the end of the stream, or an error. -/
  | recvReturns (c : Nat) (fails : Bool)
  | clientCloses (c : Nat)
  | daemon (outcome : Outcome)
  /-- `StopDaemon` writes to the pipe. -/
  | stopWrites
  | stopJoins
  deriving DecidableEq

/-- One step. -/
def step (size : Nat) (outcomes : Nat → Option Nat) (s : State) : Action → Option State
  | .connect c =>
    if (s.clients c).pc = .idle ∧ s.daemon ≠ .returned then
      some { s.setClient c { s.clients c with pc := .sending 0 } with backlog := s.backlog ++ [c] }
    else none
  | .deliver c n =>
    match (s.clients c).pc with
    | .sending delivered =>
      if 0 < n ∧ delivered + n ≤ sentBytes outcomes c then
        some (s.setClient c { s.clients c with
          pc := .sending (delivered + n), inFlight := (s.clients c).inFlight + n })
      else none
    | _ => none
  | .sent c =>
    if (s.clients c).pc = .sending (sentBytes outcomes c) then
      some (s.setClient c { s.clients c with pc := .waiting })
    else none
  | .recvReturns c fails =>
    if (s.clients c).pc = .waiting ∧ (fails ∨ (s.clients c).reply ∨ (s.clients c).peerClosed) then
      some (s.setClient c { s.clients c with pc := .closing })
    else none
  | .clientCloses c =>
    if (s.clients c).pc = .closing then some (s.setClient c { s.clients c with pc := .closed })
    else none
  | .daemon outcome => daemonStep size s outcome
  | .stopWrites =>
    if s.stop = .idle then some { s with pipe := true, stop := .join } else none
  | .stopJoins =>
    if s.stop = .join ∧ s.daemon = .returned then some { s with stop := .joined } else none

end Dolin.Hawkeye.Handshake
