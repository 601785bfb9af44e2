import Dolin.Base.Slots
import Dolin.Hawkeye.Core

/-!
# What the crash monitor gives back

`RegisterSignalHandler` takes slots of the kernel's table over and `UnregisterSignalHandler` gives
them back, with a handler that is not null as the mark of a slot that was filled. A disposition that
was `SIG_DFL` does not carry the mark, so it is not given back.
-/

namespace Dolin.Hawkeye.HawkeyeCore

open Slots

/-- The mark of a slot of `old_handlers` that was filled. -/
def marked (act : Sigaction) : Bool := !act.saHandler.isNull

/-- The signals whose handler was replaced: those before the first for which `sigaction` fails. -/
def replaced (refuses : Nat → Bool) : List Nat := SIGNALS_TO_CATCH.takeWhile (!refuses ·)

theorem registerLoop_eq (refuses : Nat → Bool) (action : Sigaction) {signals : List Nat}
    (valid : ∀ signo ∈ signals, settable signo = true) (table oldHandlers : Dispositions) :
    registerLoop refuses action signals table oldHandlers =
      ((takeOver action (signals.takeWhile (!refuses ·)) table oldHandlers).1,
        (takeOver action (signals.takeWhile (!refuses ·)) table oldHandlers).2,
        !signals.any refuses) := by
  induction signals generalizing table oldHandlers with
  | nil => rfl
  | cons signo signals ih =>
    have here := valid signo List.mem_cons_self
    have rest := ih (fun s mem => valid s (List.mem_cons_of_mem _ mem))
    cases refused : refuses signo with
    | true => simp [registerLoop, refused, takeOver]
    | false => simp [registerLoop, refused, sigaction, here, rest, takeOver]

theorem unregister_eq (oldHandlers table : Dispositions) (signals : List Nat) :
    signals.foldl (unregisterOne oldHandlers) table =
      giveBack marked oldHandlers (signals.filter settable) table := by
  induction signals generalizing table with
  | nil => rfl
  | cons signo signals ih =>
    rw [List.foldl_cons, ih]
    cases valid : settable signo with
    | true =>
      cases null : (oldHandlers signo).saHandler.isNull <;>
        simp [valid, unregisterOne, null, sigaction, giveBack, marked]
    | false => simp [valid, unregisterOne, sigaction]

theorem settable_of_caught : ∀ signo ∈ SIGNALS_TO_CATCH, settable signo = true := by decide

theorem replaced_subset {refuses : Nat → Bool} {signo : Nat} (mem : signo ∈ replaced refuses) :
    signo ∈ SIGNALS_TO_CATCH := (List.takeWhile_sublist _).subset mem

/-- The dispositions that come back are those that were not the default. -/
theorem unregister_register_iff (refuses : Nat → Bool) (table : Dispositions) :
    unregisterSignalHandler (registerSignalHandler refuses table fun _ => {}).1
        (registerSignalHandler refuses table fun _ => {}).2.1 = table ↔
      ∀ signo ∈ replaced refuses, (table signo).saHandler ≠ .sigDfl := by
  have null : ∀ act : Sigaction, marked act = true ↔ act.saHandler ≠ .sigDfl := by
    rintro ⟨handler, _, _⟩
    cases handler <;> simp [marked, SaHandler.isNull]
  simp only [unregisterSignalHandler, registerSignalHandler, registerLoop_eq refuses registered
    settable_of_caught, unregister_eq, ← null]
  apply giveBack_takeOver_iff
  · exact (List.takeWhile_sublist _).nodup (by decide)
  · intro signo mem
    have caught := replaced_subset mem
    have bound : ∀ s ∈ SIGNALS_TO_CATCH, s < NSIG := by decide
    exact List.mem_filter.mpr
      ⟨List.mem_range.mpr (bound signo caught), settable_of_caught signo caught⟩
  · intro _ _
    rfl
  · rfl

/-- What is restored: where all calls of `sigaction` succeed, `InitCore` succeeds and `ReleaseCore`
leaves the process as it was; where one fails, `InitCore` fails and leaves the process as it was. -/
def Restores (refuses : Nat → Bool) (p : Process) (socketName : JString) : Prop :=
  if SIGNALS_TO_CATCH.any refuses then initCore refuses p (some socketName) = (p, false)
  else (initCore refuses p (some socketName)).2 = true ∧
    releaseCore (initCore refuses p (some socketName)).1 = (p, true)

section

variable {refuses : Nat → Bool} {p : Process} {name : JString}

/-- What `UnregisterSignalHandler` makes of the dispositions that `RegisterSignalHandler` left. -/
def dispositionsBack (refuses : Nat → Bool) (p : Process) : Dispositions :=
  unregisterSignalHandler (registerSignalHandler refuses p.dispositions fun _ => {}).1
    (registerSignalHandler refuses p.dispositions fun _ => {}).2.1

/-- The process between `RegisterSignalHandler` and the end of `InitCore`. -/
def armed (refuses : Nat → Bool) (p : Process) (name : JString) : Process :=
  { dispositions := (registerSignalHandler refuses p.dispositions fun _ => {}).1
    dumpable := 1
    coreContext := some
      { oldHandlers := (registerSignalHandler refuses p.dispositions fun _ => {}).2.1
        socketAddress := fillSockAddr name
        oldDumpable := p.dumpable } }

theorem initCore_eq (idle : p.coreContext = none) (named : name.utf8 ≠ []) :
    initCore refuses p (some name) = if SIGNALS_TO_CATCH.any refuses
      then ((releaseCore (armed refuses p name)).1, false) else (armed refuses p name, true) := by
  have one : p.prctlSetDumpable 1 = { p with dumpable := 1 } := rfl
  have result : (registerSignalHandler refuses p.dispositions fun _ => {}).2.2 =
      !SIGNALS_TO_CATCH.any refuses := by
    rw [registerSignalHandler, registerLoop_eq refuses registered settable_of_caught]
  simp only [initCore, idle, Option.isSome_none, Bool.false_eq_true, if_false, named, one, result]
  cases SIGNALS_TO_CATCH.any refuses <;> rfl

theorem releaseCore_armed (restoring : acceptsDumpable p.dumpable = true) :
    releaseCore (armed refuses p name) =
      ({ dispositions := dispositionsBack refuses p, dumpable := p.dumpable }, true) := by
  simp only [releaseCore, armed, Process.prctlSetDumpable, restoring, if_true, dispositionsBack,
    Int.natCast_nonneg, Int.toNat_natCast]

/-- **What comes back.** Let `InitCore` be called with a name on a process whose monitor is not
running, and let the dumpable flag be one that can be set again. Everything is restored, after
`ReleaseCore` if all calls of `sigaction` succeed and at once if one fails, exactly where none of the
dispositions that were replaced was `SIG_DFL`. -/
theorem restores_iff_no_default (refuses : Nat → Bool) (p : Process) (name : JString)
    (idle : p.coreContext = none) (named : name.utf8 ≠ [])
    (restoring : acceptsDumpable p.dumpable = true) :
    Restores refuses p name ↔
      ∀ signo ∈ replaced refuses, (p.dispositions signo).saHandler ≠ .sigDfl := by
  have back : dispositionsBack refuses p = p.dispositions ↔
      ({ dispositions := dispositionsBack refuses p, dumpable := p.dumpable } : Process) = p := by
    obtain ⟨dispositions, dumpable, context⟩ := p
    cases idle
    simp only [Process.mk.injEq, and_true]
  rw [← unregister_register_iff, ← dispositionsBack, back, Restores, initCore_eq idle named]
  cases SIGNALS_TO_CATCH.any refuses with
  | true => simp only [if_true, releaseCore_armed restoring, Prod.mk.injEq, and_true]
  | false =>
    simp only [Bool.false_eq_true, if_false, releaseCore_armed restoring, Prod.mk.injEq, and_true,
      true_and]

end

/-- A process that ignores every signal, and is dumpable. -/
def ignoring : Process := { dispositions := fun _ => { saHandler := .sigIgn }, dumpable := 1 }

/-- A process with the default dispositions. -/
def defaults : Process := { dispositions := fun _ => {}, dumpable := 1 }

/-- The name of the socket, `s`. -/
def sampleName : JString := ⟨[0x73], by decide, by decide⟩

/-- The third call of `sigaction`, for `SIGFPE`, fails. -/
theorem restores_ignoring : Restores (· == 8) ignoring sampleName :=
  (restores_iff_no_default (· == 8) ignoring sampleName rfl (by decide) rfl).mpr fun _ _ => nofun

/-- From the default dispositions everything succeeds, and after `ReleaseCore` the handler of
`SIGSEGV` is still `HawkeyeCore::SignalHandler`, with no context behind it. -/
theorem defaults_not_restored :
    ¬ Restores (fun _ => false) defaults sampleName ∧
      (releaseCore (initCore (fun _ => false) defaults (some sampleName)).1).1.coreContext.isNone ∧
      ((releaseCore (initCore (fun _ => false) defaults (some sampleName)).1).1.dispositions
        11).saHandler = .function .signalHandler := by
  have kept : ((releaseCore (initCore (fun _ => false) defaults (some sampleName)).1).1.dispositions
      11).saHandler = .function .signalHandler := by decide +kernel
  refine ⟨fun restores => ?_, by decide +kernel, kept⟩
  have back := restores.2
  rw [back] at kept
  cases kept

end Dolin.Hawkeye.HawkeyeCore
