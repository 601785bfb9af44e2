import Mathlib.Logic.Function.Basic
import Dolin.Hawkeye.Private

/-!
# The crash monitor's signal handlers

`hawkeye_core.cpp` and the two functions of `hawkeye_signal_utils.cpp` that it calls: `InitCore` takes
over the handlers of seven signals and the dumpable flag, `ReleaseCore` gives them back.

`SIG_DFL` is the null pointer. So is the handler of a slot of `old_handlers` that was never filled.
-/

namespace Dolin.Hawkeye.HawkeyeCore

/-- A function that handles a signal: `HawkeyeCore::SignalHandler`, or one at another address. -/
inductive HandlerFunction where
  | signalHandler
  | other (address : Nat)
  deriving DecidableEq

/-- `sa_handler`, or `sa_sigaction`, which shares its place. -/
inductive SaHandler where
  | sigDfl
  | sigIgn
  | function (f : HandlerFunction)
  deriving DecidableEq

/-- `!sa_handler`. -/
def SaHandler.isNull : SaHandler → Bool
  | sigDfl => true
  | sigIgn | function _ => false

/-- `struct sigaction`; by default all zero, as `memset` leaves it. -/
structure Sigaction where
  saHandler : SaHandler := .sigDfl
  saFlags : BitVec 32 := 0
  saMask : BitVec 64 := 0
  deriving DecidableEq

/-- A `struct sigaction` for each signal number. -/
abbrev Dispositions := Nat → Sigaction

/-- One more than the largest signal. -/
def NSIG : Nat := 65

def SA_SIGINFO : BitVec 32 := 4

/-- The signals whose disposition can be set: no number but 1 to 64, and neither `SIGKILL` nor
`SIGSTOP`. -/
def settable (signo : Nat) : Bool := 0 < signo && signo < NSIG && signo ≠ 9 && signo ≠ 19

/-- What `sigaction` makes of the dispositions; `none` where it fails. -/
def sigaction (table : Dispositions) (signo : Nat) (act : Sigaction) : Option Dispositions :=
  if settable signo then some (Function.update table signo act) else none

/-- `hawkeye_core_context`. -/
structure CoreContext where
  oldHandlers : Dispositions
  socketAddress : SockaddrUn
  oldDumpable : Int

/-- What the process and its kernel state hold of it. -/
structure Process where
  dispositions : Dispositions
  dumpable : Nat
  coreContext : Option CoreContext := none

/-- The values that `prctl(PR_SET_DUMPABLE, value)` takes. -/
def acceptsDumpable (value : Int) : Bool := value = 0 || value = 1

/-- `prctl(PR_SET_DUMPABLE, value)`. Nobody looks at its result. -/
def Process.prctlSetDumpable (p : Process) (value : Int) : Process :=
  if acceptsDumpable value then { p with dumpable := value.toNat } else p

/-- What `RegisterSignalHandler` installs. -/
def registered : Sigaction := { saHandler := .function .signalHandler, saFlags := SA_SIGINFO }

/-- The loop of `RegisterSignalHandler`: the dispositions, `old_handlers` and the result. `refuses`
are the signals for which the call fails. -/
def registerLoop (refuses : Nat → Bool) (action : Sigaction) :
    List Nat → Dispositions → Dispositions → Dispositions × Dispositions × Bool
  | [], table, oldHandlers => (table, oldHandlers, true)
  | signo :: signals, table, oldHandlers =>
    if refuses signo then (table, oldHandlers, false)
    else
      match sigaction table signo action with
      | none => (table, oldHandlers, false)
      | some table' =>
        registerLoop refuses action signals table' (Function.update oldHandlers signo (table signo))

def registerSignalHandler (refuses : Nat → Bool) (table oldHandlers : Dispositions) :
    Dispositions × Dispositions × Bool :=
  registerLoop refuses registered SIGNALS_TO_CATCH table oldHandlers

/-- One round of `UnregisterSignalHandler`. -/
def unregisterOne (oldHandlers : Dispositions) (table : Dispositions) (signo : Nat) :
    Dispositions :=
  if (oldHandlers signo).saHandler.isNull then table
  else (sigaction table signo (oldHandlers signo)).getD table

def unregisterSignalHandler (table oldHandlers : Dispositions) : Dispositions :=
  (List.range NSIG).foldl (unregisterOne oldHandlers) table

/-- `ReleaseCore`. `PR_GET_DUMPABLE` might have failed, and then the flag stays. -/
def releaseCore (p : Process) : Process × Bool :=
  match p.coreContext with
  | none => (p, false)
  | some context =>
    let p := { p with
      dispositions := unregisterSignalHandler p.dispositions context.oldHandlers }
    let p := if 0 ≤ context.oldDumpable then p.prctlSetDumpable context.oldDumpable else p
    ({ p with coreContext := none }, true)

/-- `InitCore`, with the signals for which `sigaction` fails in `RegisterSignalHandler`. -/
def initCore (refuses : Nat → Bool) (p : Process) (socketName : Option JString) : Process × Bool :=
  if p.coreContext.isSome then (p, false)
  else
    match socketName with
    | none => (p, false)
    | some name =>
      if name.utf8 = [] then (p, false)
      else
        let oldDumpable : Int := p.dumpable
        let p := p.prctlSetDumpable 1
        let registration := registerSignalHandler refuses p.dispositions fun _ => {}
        let p : Process := { p with
          dispositions := registration.1
          coreContext := some
            { oldHandlers := registration.2.1, socketAddress := fillSockAddr name, oldDumpable } }
        if registration.2.2 then (p, true) else ((releaseCore p).1, false)

end Dolin.Hawkeye.HawkeyeCore
