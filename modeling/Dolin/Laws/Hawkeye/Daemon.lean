import Dolin.Base.Machine
import Dolin.Hawkeye.Daemon

/-!
# What a failed start leaves behind

`StartDaemon` undoes its work with `StopDaemon`, which closes the pipe only where there is a thread,
so every failure after `pipe` leaves the pipe open; and a failure of `pthread_create` undoes nothing.
A start that succeeds sets descriptor 1 to non-blocking in place of the pipe, unless the pipe's first
end is descriptor 0.
-/

namespace Dolin.Hawkeye.Daemon

open Region Machine

variable {s s' : State} {context : Context} {o : StartOutcome}

/-! ## The two ends of the pipe -/

/-- Both calls of `fcntl` succeed. -/
def Fcntl.ok (f : Fcntl) : Bool := f.getfl && f.setfl

/-- A descriptor that was open and blocking is made non-blocking where both calls succeed. -/
theorem setNonBlock_of_blocking {fds : Fds} {fd : Nat} (blocking : fds fd = some false) (f : Fcntl) :
    setNonBlock fds fd f =
      if f.ok then (Function.update fds fd (some true), true) else (fds, false) := by
  obtain ⟨getfl, setfl⟩ := f
  cases getfl <;> cases setfl <;> simp [setNonBlock, Fcntl.ok, blocking]

/-- Other descriptors stay as they are. -/
theorem setNonBlock_other {fds : Fds} {fd other : Nat} (ne : other ≠ fd) (f : Fcntl) :
    (setNonBlock fds fd f).1 other = fds other := by
  unfold setNonBlock
  split
  · rfl
  · split
    · rfl
    · split
      · rfl
      · exact Function.update_of_ne ne ..

/-- A descriptor that was open stays open. -/
theorem setNonBlock_open {fds : Fds} {fd other : Nat} (opened : fds other ≠ none) (f : Fcntl) :
    (setNonBlock fds fd f).1 other ≠ none := by
  by_cases eq : other = fd
  · subst eq
    unfold setNonBlock
    split
    · exact opened
    · split
      · exact opened
      · split
        · exact opened
        · simpa using opened
  · rwa [setNonBlock_other eq]

/-- The descriptors once `pipe` has succeeded. -/
def piped (fds : Fds) (interrupter : Nat × Nat) : Fds :=
  Function.update (Function.update fds interrupter.1 (some false)) interrupter.2 (some false)

theorem piped_ends (fds : Fds) (interrupter : Nat × Nat) :
    piped fds interrupter interrupter.1 = some false ∧
      piped fds interrupter interrupter.2 = some false := by
  unfold piped
  constructor
  · by_cases eq : interrupter.1 = interrupter.2
    · rw [eq, Function.update_self]
    · rw [Function.update_of_ne eq, Function.update_self]
  · exact Function.update_self ..

theorem setInterrupter_open {fds : Fds} {interrupter : Nat × Nat} {fd : Nat} (opened : fds fd ≠ none)
    (inner outer : Fcntl) : (setInterrupter fds interrupter inner outer).1 fd ≠ none := by
  unfold setInterrupter
  split
  · exact setNonBlock_open opened outer
  · have kept : (setNonBlock fds interrupter.2 inner).1 fd ≠ none := setNonBlock_open opened inner
    split
    next fds' eq => rw [eq] at kept; exact setNonBlock_open kept outer
    next fds' eq => rw [eq] at kept; exact setNonBlock_open kept outer

/-- The first end is descriptor 0, and the second is made non-blocking. -/
theorem setInterrupter_zero {fds : Fds} {interrupter : Nat × Nat}
    (apart : interrupter.1 ≠ interrupter.2) (zero : interrupter.1 = 0) {inner : Fcntl}
    (ok : inner.ok = true) (outer : Fcntl) :
    setInterrupter (piped fds interrupter) interrupter inner outer = if outer.ok
      then (Function.update (Function.update (piped fds interrupter) interrupter.2 (some true)) 0
        (some true), true)
      else (Function.update (piped fds interrupter) interrupter.2 (some true), false) := by
  have second := setNonBlock_of_blocking (piped_ends fds interrupter).2 inner
  rw [ok, if_pos rfl] at second
  have first : Function.update (piped fds interrupter) interrupter.2 (some true) 0 = some false := by
    rw [Function.update_of_ne (zero ▸ apart), ← zero]
    exact (piped_ends fds interrupter).1
  unfold setInterrupter
  rw [if_neg (not_not.mpr zero), second]
  exact setNonBlock_of_blocking first outer

/-- Both ends end up non-blocking only where the first is descriptor 0 and all calls succeed. -/
theorem setInterrupter_nonBlocking_iff (fds : Fds) {interrupter : Nat × Nat}
    (apart : interrupter.1 ≠ interrupter.2) (inner outer : Fcntl) :
    ((setInterrupter (piped fds interrupter) interrupter inner outer).1 interrupter.1 = some true ∧
      (setInterrupter (piped fds interrupter) interrupter inner outer).1 interrupter.2 = some true) ↔
      interrupter.1 = 0 ∧ inner.ok = true ∧ outer.ok = true := by
  obtain ⟨firstEnd, secondEnd⟩ := piped_ends fds interrupter
  by_cases zero : interrupter.1 = 0
  · by_cases ok : inner.ok = true
    · rw [setInterrupter_zero apart zero ok]
      by_cases ok' : outer.ok = true
      · simp [ok, ok', zero, Function.update_apply]
      · have blocking : Function.update (piped fds interrupter) interrupter.2 (some true)
            interrupter.1 = some false := by
          rw [Function.update_of_ne apart, firstEnd]
        simp [ok', blocking]
    · -- the second end failed, and the outer call is on descriptor 1
      have failed := setNonBlock_of_blocking secondEnd inner
      rw [if_neg ok] at failed
      have blocking : (setInterrupter (piped fds interrupter) interrupter inner outer).1
          interrupter.1 = some false := by
        unfold setInterrupter
        rw [if_neg (not_not.mpr zero), failed]
        exact (setNonBlock_other (by omega) outer).trans firstEnd
      simp [ok, blocking]
  · -- only descriptor 1 is touched, and the ends are two
    have only : setInterrupter (piped fds interrupter) interrupter inner outer =
        setNonBlock (piped fds interrupter) 1 outer := by
      unfold setInterrupter
      rw [if_pos zero]
    rw [only]
    constructor
    · rintro ⟨first, second⟩
      by_cases one : interrupter.1 = 1
      · rw [setNonBlock_other (by omega), secondEnd] at second
        cases second
      · rw [setNonBlock_other one, firstEnd] at first
        cases first
    · rintro ⟨zero', -⟩
      exact absurd zero' zero

/-! ## One start -/

/-- All system calls of a start succeed. -/
def StartOutcome.Succeeds (o : StartOutcome) : Prop :=
  o.pipe.isSome ∧ o.inner.ok = true ∧ o.outer.ok = true ∧ o.pthreadCreate = true

/-- What a start that failed leaves: no context, neither end of its pipe open, no thread, and so a
start whose calls all succeed returns true. -/
structure Undone (o : StartOutcome) (s' : State) : Prop where
  context : s'.daemonContext = none
  closed : ∀ interrupter ∈ o.pipe, s'.fds interrupter.1 = none ∧ s'.fds interrupter.2 = none
  thread : s'.threads = 0
  retry : ∀ (name : JString) folder (o' : StartOutcome), name.utf8 ≠ [] → o'.Succeeds →
    (startDaemon s' (some name) folder o').2 = true

/-- What a start that succeeded leaves: the two ends of the pipe are non-blocking. -/
def Armed (s' : State) : Prop :=
  ∃ context ∈ s'.daemonContext, s'.fds context.interrupter.1 = some true ∧
    s'.fds context.interrupter.2 = some true

/-- A start that gets past its first tests either fails and is undone, or succeeds and is armed. -/
def Atomic (s : State) : Call → Prop
  | .startDaemon socketName logFolderPath o =>
    s.Ready socketName → (∀ interrupter ∈ o.pipe, s.Free interrupter) →
      if (startDaemon s socketName logFolderPath o).2 = true
      then Armed (startDaemon s socketName logFolderPath o).1
      else Undone o (startDaemon s socketName logFolderPath o).1
  | .stopDaemon _ => True

/-- `pipe` fails, or it gives descriptor 0 for its first end and all that follows succeeds. -/
def PipeFailsOrZero (s : State) : Call → Prop
  | .startDaemon socketName _ o =>
    s.Ready socketName → ∀ interrupter ∈ o.pipe, s.Free interrupter →
      interrupter.1 = 0 ∧ o.inner.ok = true ∧ o.outer.ok = true ∧ o.pthreadCreate = true
  | .stopDaemon _ => True

theorem setNonBlock_ok {fds : Fds} {fd : Nat} {f : Fcntl} (ok : f.ok = true) :
    (setNonBlock fds fd f).2 = true := by
  obtain ⟨getfl, setfl⟩ := f
  obtain ⟨rfl, rfl⟩ := Bool.and_eq_true_iff.mp ok
  unfold setNonBlock
  split
  next h => cases h
  next =>
    split
    · rfl
    · rfl

theorem setInterrupter_ok (fds : Fds) (interrupter : Nat × Nat) (inner : Fcntl) {outer : Fcntl}
    (ok : outer.ok = true) : (setInterrupter fds interrupter inner outer).2 = true := by
  unfold setInterrupter
  split
  · exact setNonBlock_ok ok
  · split
    · exact setNonBlock_ok ok
    · exact setNonBlock_ok ok

theorem newContext_idle (name : JString) (logFolderPath : Option JString) (o : StartOutcome) :
    (newContext name logFolderPath o).daemonThread = false := by
  unfold newContext
  split
  · rfl
  · split
    · rfl
    · rfl

theorem startDaemon_of_ready {socketName : Option JString} (logFolderPath : Option JString)
    (o : StartOutcome) (ready : s.Ready socketName) : ∃ context, startDaemon s socketName logFolderPath o =
      startPipe s context o ∧ context.daemonThread = false := by
  obtain ⟨idle, name, rfl, named⟩ := ready
  refine ⟨newContext name logFolderPath o, ?_, newContext_idle name logFolderPath o⟩
  simp only [startDaemon, Option.isNone_iff_eq_none.mp idle, Option.isSome_none,
    Bool.false_eq_true, if_false, if_neg named]

/-- Without a context, a start whose calls all succeed returns true. -/
theorem startDaemon_of_succeeds {name : JString} {folder : Option JString}
    (idle : s.daemonContext = none) (named : name.utf8 ≠ []) (all : o.Succeeds) :
    (startDaemon s (some name) folder o).2 = true := by
  obtain ⟨pipe, -, outer, thread⟩ := all
  obtain ⟨interrupter, pipe⟩ := Option.isSome_iff_exists.mp pipe
  obtain ⟨context, start, -⟩ := startDaemon_of_ready (s := s) folder o
    ⟨Option.isNone_iff_eq_none.mpr idle, name, rfl, named⟩
  rw [start]
  simp only [startPipe, pipe]
  have ok := setInterrupter_ok (piped s.fds interrupter) interrupter o.inner outer
  split
  next fds eq =>
    rw [piped, eq] at ok
    cases ok
  next fds eq => rw [thread, if_pos rfl]

/-- A start whose `pipe` fails is undone. -/
theorem startPipe_of_none (pipe : o.pipe = none) (idle : context.daemonThread = false)
    (threads : s.threads = 0) : (startPipe s context o).2 = false ∧ Undone o (startPipe s context o).1 := by
  have result : startPipe s context o = ({ s with daemonContext := none }, false) := by
    simp only [startPipe, pipe, stopDaemon, idle, Bool.false_eq_true, if_false]
  rw [result]
  refine ⟨rfl, rfl, ?_, threads, ?_⟩
  · intro interrupter mem
    rw [pipe] at mem
    cases mem
  · intro name folder o' named all
    exact startDaemon_of_succeeds rfl named all

/-- A start whose `pipe` succeeds is atomic only in one case: every failure leaves the pipe or the
context, and descriptor 1 is not the pipe. -/
theorem startPipe_of_some {interrupter : Nat × Nat} (pipe : o.pipe = some interrupter)
    (idle : context.daemonThread = false) (apart : interrupter.1 ≠ interrupter.2) :
    (if (startPipe s context o).2 = true then Armed (startPipe s context o).1
      else Undone o (startPipe s context o).1) ↔
      interrupter.1 = 0 ∧ o.inner.ok = true ∧ o.outer.ok = true ∧ o.pthreadCreate = true := by
  have nonBlocking := setInterrupter_nonBlocking_iff s.fds apart o.inner o.outer
  have opened : (setInterrupter (piped s.fds interrupter) interrupter o.inner o.outer).1
      interrupter.1 ≠ none :=
    setInterrupter_open (by rw [(piped_ends s.fds interrupter).1]; nofun) o.inner o.outer
  have result : o.outer.ok = true →
      (setInterrupter (piped s.fds interrupter) interrupter o.inner o.outer).2 = true :=
    setInterrupter_ok (piped s.fds interrupter) interrupter o.inner
  rw [piped] at *
  simp only [startPipe, pipe]
  cases set : setInterrupter _ interrupter o.inner o.outer with
  | mk fds ok =>
    rw [set] at nonBlocking opened result
    cases ok with
    | false =>
      -- the pipe stays open, as there is no thread
      simp only [stopDaemon, idle, Bool.false_eq_true, if_false]
      constructor
      · intro undone
        exact absurd (undone.closed interrupter pipe).1 opened
      · rintro ⟨-, -, outer, -⟩
        exact absurd (result outer) nofun
    | true =>
      cases thread : o.pthreadCreate with
      | false =>
        -- nothing is undone
        simp only [Bool.false_eq_true, if_false, and_false, iff_false]
        intro undone
        cases undone.context
      | true =>
        simp only [if_true, and_true]
        rw [← nonBlocking]
        simp only [Armed, Option.mem_def, Option.some.injEq, exists_eq_left']

/-! ## Every run -/

/-- The daemon threads that run are those of the context. -/
structure Tracked (s : State) : Prop where
  idle : s.daemonContext = none → s.threads = 0
  started : ∀ context ∈ s.daemonContext, s.threads = if context.daemonThread then 1 else 0

theorem tracked_new (fds : Fds) : Tracked { fds } := ⟨fun _ => rfl, nofun⟩

theorem Tracked.stop (t : Tracked s) (writes : Bool) : Tracked (stopDaemon s writes).1 := by
  unfold stopDaemon
  split
  next idle => exact t
  next context found =>
    have threads := t.started context found
    split
    next thread =>
      rw [thread, if_pos rfl] at threads
      split
      · refine ⟨fun _ => ?_, nofun⟩
        change s.threads - 1 = 0
        omega
      · exact t
    next thread =>
      rw [if_neg thread] at threads
      exact ⟨fun _ => threads, nofun⟩

theorem Tracked.startPipe (threads : s.threads = 0) (idle : context.daemonThread = false) :
    Tracked (startPipe s context o).1 := by
  have made : ∀ (c : Context) (fds : Fds), c.daemonThread = false →
      Tracked { s with daemonContext := some c, fds } := by
    intro c fds none
    refine ⟨nofun, fun c' mem => ?_⟩
    cases mem
    rw [none]
    exact threads
  unfold Daemon.startPipe
  cases o.pipe with
  | none => exact (made context s.fds idle).stop false
  | some interrupter =>
    simp only []
    cases setInterrupter _ interrupter o.inner o.outer with
    | mk fds ok =>
      cases ok with
      | false => exact (made { context with interrupter } fds idle).stop false
      | true =>
        simp only []
        split
        · refine ⟨nofun, fun c' mem => ?_⟩
          cases mem
          change s.threads + 1 = 1
          omega
        · exact made { context with interrupter } fds idle

theorem Tracked.step {c : Call} (t : Tracked s) (h : step s c = some s') : Tracked s' := by
  unfold Daemon.step at h
  split at h
  next =>
    cases c with
    | startDaemon socketName folder o =>
      cases h
      unfold startDaemon
      split
      · exact t
      next idle =>
        have threads := t.idle (Option.not_isSome_iff_eq_none.mp idle)
        cases socketName with
        | none => exact t
        | some name =>
          simp only []
          split
          · exact t
          · exact Tracked.startPipe threads (newContext_idle name folder o)
    | stopDaemon writes => cases h; exact t.stop writes
  next => cases h

theorem atomic_iff (t : Tracked s) (c : Call) : Atomic s c ↔ PipeFailsOrZero s c := by
  cases c with
  | stopDaemon writes => exact Iff.rfl
  | startDaemon socketName logFolderPath o =>
    apply imp_congr_right
    intro ready
    obtain ⟨context, start, idle⟩ := startDaemon_of_ready logFolderPath o ready
    have threads := t.idle (Option.isNone_iff_eq_none.mp ready.1)
    rw [start]
    cases pipe : o.pipe with
    | none =>
      obtain ⟨failed, undone⟩ := startPipe_of_none pipe idle threads
      simp only [failed, Bool.false_eq_true, if_false, Option.mem_def, reduceCtorEq, false_imp_iff,
        implies_true, undone]
    | some interrupter =>
      simp only [Option.mem_def, Option.some.injEq, forall_eq']
      constructor
      · intro atomic free
        exact (startPipe_of_some pipe idle free.1).mp (atomic free)
      · intro zero free
        exact (startPipe_of_some pipe idle free.1).mpr (zero free)

/-- **The starts that are atomic.** In every run of `StartDaemon` and `StopDaemon`, from a process
without a daemon and with any descriptors open, and with every choice of outcomes: every start that
gets past its first tests is atomic if and only if at every such start `pipe` fails, or gives
descriptor 0 for its first end and the calls of `fcntl` and `pthread_create` succeed. -/
theorem starts_atomic_iff (fds : Fds) (calls : List Call) :
    Meets step Atomic { fds } calls ↔ Meets step PipeFailsOrZero { fds } calls :=
  meets_congr Tracked (fun _ _ _ t h => t.step h) (fun _ c t => atomic_iff t c) (tracked_new fds) calls

/-- A process whose standard descriptors are open and blocking. -/
def standard : State := { fds := fun fd => if fd < 3 then some false else none }

/-- The socket name `t`. -/
def sampleName : JString := ⟨[0x74], by decide, by decide⟩

/-- System calls that all succeed. -/
def sampleOutcome : StartOutcome :=
  { pipe := some (3, 4), inner := ⟨true, true⟩, outer := ⟨true, true⟩, pthreadCreate := true }

/-- A start whose system calls all succeed. -/
def sampleStart : Call := .startDaemon (some sampleName) none sampleOutcome

/-- Every system call succeeds and the daemon is started; both ends of the pipe block, and standard
output does not. -/
theorem successful_start_blocks :
    (∃ s, run step standard [sampleStart] = some s ∧ s.daemonContext.isSome ∧
      s.fds 3 = some false ∧ s.fds 4 = some false ∧ s.fds 1 = some true) ∧
    ¬ Meets step Atomic standard [sampleStart] := by
  obtain ⟨s, ran, facts⟩ := Option.map_eq_some_iff.mp (show
    (run step standard [sampleStart]).map
        (fun s => (s.daemonContext.isSome, s.fds 3, s.fds 4, s.fds 1)) =
      some (true, some false, some false, some true) by decide +kernel)
  simp only [Prod.mk.injEq] at facts
  refine ⟨⟨s, ran, facts⟩, fun meets => ?_⟩
  have atomic := (atomic_iff (tracked_new _) sampleStart).mp meets.1
    ⟨rfl, _, rfl, by decide⟩ (3, 4) rfl (by decide)
  exact absurd atomic.1 (by decide)

end Dolin.Hawkeye.Daemon
