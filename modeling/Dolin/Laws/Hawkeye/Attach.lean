import Dolin.Laws.Hawkeye.Report

/-!
# The threads a report is attached to

`PtraceAttach` fails at three points, and at two of them the thread is already attached.
`DaemonCreateReport` treats all three alike: it returns, or it puts 0 in the place of the thread. It
detaches from the threads that `PtraceAttach` was true for, so what a `waitpid` spoils is left
attached.
-/

namespace Dolin.Hawkeye.Daemon

/-! ## The attaches of a report -/

/-- The calls of `PtraceAttach` for some threads, with how each one ends. -/
def attempts (ptrace : List Int → Int → AttachOutcome) :
    List Int → List Int → List (Int × AttachOutcome)
  | _, [] => []
  | before, tid :: tids => (tid, ptrace before tid) :: attempts ptrace (before ++ [tid]) tids

/-- The threads that `DaemonCreateReport` calls `PtraceAttach` for: the crashing one, and the others
where that one was attached. -/
def attemptedTids (w : World) (message : CrashMessage) : List Int :=
  message.tid ::
    if ptraceAttach (w.ptrace [] message.tid) then getThreads message.pid 64 w.tasks else []

/-- The `PTRACE_ATTACH` itself succeeds. -/
def tookHold (attempt : Int × AttachOutcome) : Bool := attempt.2 != .attachFails

/-- The threads on which a `PTRACE_ATTACH` succeeded, as often as one did. -/
def attachedTids (w : World) (message : CrashMessage) : List Int :=
  ((attempts w.ptrace [] (attemptedTids w message)).filter tookHold).map Prod.fst

/-- No `PTRACE_ATTACH` that succeeded is spoiled by the `waitpid` after it: that one neither fails nor
finds the thread in another state than stopped. -/
def WaitsStop (w : World) (message : CrashMessage) : Prop :=
  ∀ attempt ∈ attempts w.ptrace [] (attemptedTids w message),
    attempt.2 ≠ .waitFails ∧ attempt.2 ≠ .notStopped

/-- `ptrace` as the kernel has it: a thread that a tracer was attached to is not attached again. -/
def TracedOnce (ptrace : List Int → Int → AttachOutcome) : Prop :=
  ∀ before tid between, ptrace before tid ≠ .attachFails →
    ptrace (before ++ tid :: between) tid = .attachFails

/-- Each thread that was attached is detached, exactly once, and no other one is. -/
structure Balanced (attached detached : List Int) : Prop where
  same : ∀ tid, tid ∈ attached ↔ tid ∈ detached
  once : detached.Nodup

/-! ## What is detached -/

theorem ptraceAttach_eq_true {outcome : AttachOutcome} :
    ptraceAttach outcome = true ↔ outcome = .stopped := by
  cases outcome <;> simp [ptraceAttach]

/-- The call of `PtraceAttach` was true. -/
def succeeds (attempt : Int × AttachOutcome) : Bool := ptraceAttach attempt.2

/-- The loop keeps the threads that `PtraceAttach` was true for. -/
theorem attachThreads_filter (ptrace : List Int → Int → AttachOutcome) (before : List Int)
    {tids : List Int} (nonzero : ∀ tid ∈ tids, tid ≠ 0) :
    (attachThreads ptrace before tids).filter (· ≠ 0) =
      ((attempts ptrace before tids).filter succeeds).map Prod.fst := by
  induction tids generalizing before with
  | nil => rfl
  | cons tid tids ih =>
    have here := nonzero tid List.mem_cons_self
    have rest := ih (before ++ [tid]) fun u mem => nonzero u (List.mem_cons_of_mem _ mem)
    rw [attachThreads, attempts, List.filter_cons, List.filter_cons, rest]
    cases attached : ptraceAttach (ptrace before tid) <;> simp [succeeds, attached, here]

theorem getThreads_ne_zero (pid : Int) (size : Nat) (names : List (List Char)) :
    ∀ tid ∈ getThreads pid size names, tid ≠ 0 := by
  intro tid mem
  rw [getThreads_eq] at mem
  have kept := (List.mem_filter.mp (List.mem_of_mem_take mem)).2
  exact (of_decide_eq_true kept).1

/-- What a report that returned has detached: the threads that `PtraceAttach` was true for. -/
theorem daemonCreateReport_detached {w : World} {context : Context} {files : Files}
    {message : CrashMessage} {report : Report}
    (created : daemonCreateReport w context files message = some report) :
    report.detached =
      ((attempts w.ptrace [] (attemptedTids w message)).filter succeeds).map Prod.fst := by
  obtain ⟨first, flushed, -, rfl⟩ | ⟨failed, rfl⟩ := daemonCreateReport_cases created
  · have others := attachThreads_filter w.ptrace [message.tid]
      (getThreads_ne_zero message.pid 64 w.tasks)
    have here : succeeds (message.tid, w.ptrace [] message.tid) = true := first
    rw [attemptedTids, first, if_pos rfl, attempts, List.filter_cons_of_pos here, List.map_cons,
      List.nil_append, ← others]
    rfl
  · have here : ¬ succeeds (message.tid, w.ptrace [] message.tid) = true := by
      rw [succeeds, failed]
      exact Bool.false_ne_true
    rw [attemptedTids, failed, if_neg Bool.false_ne_true, attempts, attempts,
      List.filter_cons_of_neg here]
    rfl

/-! ## What is left attached -/

theorem tookHold_of_succeeds {attempt : Int × AttachOutcome} (h : succeeds attempt = true) :
    tookHold attempt = true := by
  rw [tookHold, ptraceAttach_eq_true.mp h]
  rfl

theorem succeeds_iff {attempt : Int × AttachOutcome} (h : tookHold attempt = true) :
    succeeds attempt = true ↔ attempt.2 ≠ .waitFails ∧ attempt.2 ≠ .notStopped := by
  obtain ⟨tid, outcome⟩ := attempt
  cases outcome <;> simp_all [tookHold, succeeds, ptraceAttach]

/-- The detaches match the attaches that succeeded one for one, whatever the attaches do, if and only
if no `waitpid` spoils one. -/
theorem perm_detached_iff {w : World} {context : Context} {files : Files} {message : CrashMessage}
    {report : Report} (created : daemonCreateReport w context files message = some report) :
    (attachedTids w message).Perm report.detached ↔ WaitsStop w message := by
  rw [attachedTids, WaitsStop, daemonCreateReport_detached created]
  generalize attempts w.ptrace [] (attemptedTids w message) = made
  have sub : (made.filter succeeds).Sublist (made.filter tookHold) :=
    List.monotone_filter_right made fun _ => tookHold_of_succeeds
  constructor
  · intro perm attempt mem
    have length := perm.length_eq
    rw [List.length_map, List.length_map] at length
    have all := sub.eq_of_length length.symm
    cases attached : tookHold attempt with
    | true =>
      have kept : attempt ∈ made.filter succeeds := by
        rw [all]
        exact List.mem_filter.mpr ⟨mem, attached⟩
      exact (succeeds_iff attached).mp (List.mem_filter.mp kept).2
    | false =>
      have failed : attempt.2 = .attachFails := by simpa [tookHold] using attached
      rw [failed]
      exact ⟨AttachOutcome.noConfusion, AttachOutcome.noConfusion⟩
  · intro stop
    have same : made.filter tookHold = made.filter succeeds := by
      apply List.filter_congr
      intro attempt mem
      cases attached : tookHold attempt with
      | true => exact ((succeeds_iff attached).mpr (stop attempt mem)).symm
      | false =>
        cases worked : succeeds attempt with
        | true => rw [tookHold_of_succeeds worked] at attached; cases attached
        | false => rfl
    rw [same]

/-! ## Each thread once -/

section Once

variable {ptrace : List Int → Int → AttachOutcome}

/-- A thread that was attached is not attached later. -/
theorem TracedOnce.not_mem (once : TracedOnce ptrace) {before : List Int} {tid : Int}
    (taken : ptrace before tid ≠ .attachFails) (between tids : List Int) :
    tid ∉ ((attempts ptrace (before ++ tid :: between) tids).filter tookHold).map Prod.fst := by
  induction tids generalizing between with
  | nil => exact List.not_mem_nil
  | cons u tids ih =>
    have later := ih (between ++ [u])
    rw [← List.cons_append, ← List.append_assoc] at later
    rw [attempts, List.filter_cons]
    split
    next attached =>
      rw [List.map_cons, List.mem_cons]
      rintro (rfl | mem)
      · -- the second attach to the thread
        simp [tookHold, once before tid between taken] at attached
      · exact later mem
    next => exact later

theorem TracedOnce.nodup (once : TracedOnce ptrace) (before tids : List Int) :
    (((attempts ptrace before tids).filter tookHold).map Prod.fst).Nodup := by
  induction tids generalizing before with
  | nil => exact List.nodup_nil
  | cons tid tids ih =>
    rw [attempts, List.filter_cons]
    split
    next attached =>
      have taken : ptrace before tid ≠ .attachFails := by simpa [tookHold] using attached
      rw [List.map_cons, List.nodup_cons]
      exact ⟨once.not_mem taken [] tids, ih _⟩
    next => exact ih _

end Once

/-- **What a report leaves attached.** Let the kernel not attach a thread twice. When
`DaemonCreateReport` returns, true or false, the threads on which a `PTRACE_ATTACH` succeeded are
those that it detached, each exactly once, if and only if no `waitpid` after such an attach failed or
found the thread not stopped. -/
theorem detaches_attached_iff (w : World) (context : Context) (files : Files)
    (message : CrashMessage) (report : Report)
    (created : daemonCreateReport w context files message = some report)
    (once : TracedOnce w.ptrace) :
    Balanced (attachedTids w message) report.detached ↔ WaitsStop w message := by
  have distinct : (attachedTids w message).Nodup := once.nodup [] _
  rw [← perm_detached_iff created]
  constructor
  · intro balanced
    exact (List.perm_ext_iff_of_nodup distinct balanced.once).mpr balanced.same
  · intro perm
    exact ⟨fun _ => perm.mem_iff, perm.nodup_iff.mp distinct⟩

/-- Both threads of the process are attached and stopped. -/
theorem detaches_attached_iff_stopped :
    ∃ report, daemonCreateReport twoThreads buffered (fun _ => none) (crashOf 7) = some report ∧
      Balanced (attachedTids twoThreads (crashOf 7)) report.detached := by
  refine ⟨_, rfl, (detaches_attached_iff twoThreads buffered (fun _ => none) (crashOf 7) _ rfl
    ?_).mpr ?_⟩
  · intro before tid between _
    exact if_pos (List.mem_append_right _ List.mem_cons_self)
  · unfold WaitsStop
    decide +kernel

/-- The process of `twoThreads`, where the `waitpid` for thread 8 fails. -/
def waitFailsFor8 : World :=
  { twoThreads with
    ptrace := fun attempts tid =>
      if tid ∈ attempts then .attachFails else if tid = 8 then .waitFails else .stopped }

/-- The main thread crashes, and thread 8 is left attached. -/
theorem failed_wait_left_attached :
    ∃ report, daemonCreateReport waitFailsFor8 buffered (fun _ => none) (crashOf 7) = some report ∧
      attachedTids waitFailsFor8 (crashOf 7) = [7, 8] ∧ report.detached = [7] ∧
      ¬ Balanced (attachedTids waitFailsFor8 (crashOf 7)) report.detached := by
  have attached : attachedTids waitFailsFor8 (crashOf 7) = [7, 8] := by decide +kernel
  have detached : detachedTids waitFailsFor8 (crashOf 7) = [7] := by decide +kernel
  refine ⟨_, rfl, attached, detached, ?_⟩
  intro balanced
  have left := (balanced.same 8).mp (by rw [attached]; exact List.mem_cons_of_mem _ List.mem_cons_self)
  change 8 ∈ detachedTids waitFailsFor8 (crashOf 7) at left
  rw [detached] at left
  cases left with
  | tail _ left => cases left

end Dolin.Hawkeye.Daemon
