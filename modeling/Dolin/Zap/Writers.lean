import Mathlib.Logic.Function.Basic
import Dolin.Zap.Native

/-!
# Several threads in `WriteNative`

Any number of threads write to one buffer. `WriteNative` is three steps: the comparison with
`EmptySize()`, which takes no lock, then `CallFileFlush` where it is needed, then `Append`. Each of
the last two holds `log_mtx` for its whole length, so it is one step.
-/

namespace Dolin.Zap

open Region

/-- Where a thread stands in `WriteNative`. -/
inductive WriterPc where
  | idle
  /-- The comparison asked for a flush. -/
  | flush (msg : JString)
  | append (msg : JString)

/-- What a thread does next. -/
inductive WriterAction where
  /-- Thread `t` calls `WriteNative` and compares `msg_len` with `EmptySize()`. -/
  | check (t : Nat) (msg : JString)
  | flush (t : Nat)
  | append (t : Nat)

/-- A process and its writers. `appended` keeps what each `Append` answered, and `past` the actions
so far, the last one first. No step reads either. -/
structure Writers (Z : Zlib) where
  process : Process Z
  writers : Nat → WriterPc := fun _ => .idle
  appended : List (JString × Nat) := []
  past : List WriterAction := []

namespace Writers

variable {Z : Zlib} (abi : Abi)

/-- One step of one writer, the history apart. -/
def act (s : Writers Z) : WriterAction → Option (Writers Z)
  | .check t msg =>
    match s.writers t with
    | .idle => do
      let empty ← s.process.buffer.emptySize abi
      let pc := if msg.length ≥ empty ∧ s.process.pFileFlush.isSome then .flush msg else .append msg
      return { s with writers := Function.update s.writers t pc }
    | _ => none
  | .flush t =>
    match s.writers t with
    | .flush msg => do
      let process ← s.process.callFileFlush abi
      return { s with process, writers := Function.update s.writers t (.append msg) }
    | _ => none
  | .append t =>
    match s.writers t with
    | .append msg => do
      let (buffer, n) ← s.process.buffer.append abi msg.utf8
      return { s with
        process := { s.process with buffer }, writers := Function.update s.writers t .idle,
        appended := s.appended ++ [(msg, n)] }
    | _ => none

/-- One step of one writer. -/
def step (s : Writers Z) (a : WriterAction) : Option (Writers Z) := do
  let s' ← s.act abi a
  return { s' with past := a :: s.past }

end Writers

end Dolin.Zap
