import Mathlib.Data.List.Nodup
import Mathlib.Data.List.Perm.Basic
import Mathlib.Data.List.TakeWhile
import Dolin.Hawkeye.Report

/-!
# What a native crash report covers

`GetThreads` leaves out the main thread, and `DaemonCreateReport` adds the crashing thread. These are
the same thread only where the main thread crashes.
-/

namespace Dolin.Hawkeye

/-! ## The threads of a process -/

theorem isSpace_of_isDigit {c : Char} (h : c.isDigit = true) : isSpace c = false := by
  have bound : 48 ≤ c.val := by
    simp only [Char.isDigit, Bool.and_eq_true, decide_eq_true_eq] at h
    exact h.1
  have ne : c ≠ ' ' := by
    rintro rfl
    cases h
  have above : ¬ c ≤ '\r' := by
    intro le
    have : c.val ≤ 13 := le
    have := UInt32.le_trans bound this
    exact absurd this (by simp)
  simp [isSpace, ne, above]

theorem atoi_of_isDigit {text : List Char} (ne : text ≠ []) (digits : ∀ c ∈ text, c.isDigit = true) :
    atoi text = Nat.ofDigitChars 10 text 0 := by
  obtain ⟨c, rest, rfl⟩ := List.exists_cons_of_ne_nil ne
  have here := digits c List.mem_cons_self
  have front : (c :: rest).dropWhile isSpace = c :: rest :=
    List.dropWhile_cons_of_neg (by rw [isSpace_of_isDigit here]; exact Bool.false_ne_true)
  have value : leadingDigits (c :: rest) = Nat.ofDigitChars 10 (c :: rest) 0 := by
    rw [leadingDigits, List.takeWhile_eq_self_iff.mpr digits]
  unfold atoi
  rw [front]
  split
  next rest' eq =>
    cases eq
    cases here
  next rest' eq =>
    cases eq
    cases here
  next => rw [value]

/-- The name of a thread reads back. -/
theorem atoi_toDigits (n : Nat) : atoi (Nat.toDigits 10 n) = n := by
  rw [atoi_of_isDigit Nat.toDigits_ne_nil fun c mem =>
    Nat.isDigit_of_mem_toDigits (by simp) (by simp) mem, Nat.ofDigitChars_ten_toDigits]

/-- `GetThreads` as a whole: the numbers that are neither 0 nor the process, cut to the array. -/
theorem getThreads_eq (pid : Int) (size : Nat) (names : List (List Char)) :
    getThreads pid size names =
      ((names.map atoi).filter fun tid => tid ≠ 0 ∧ tid ≠ pid).take size := by
  induction names generalizing size with
  | nil => cases size <;> rfl
  | cons name names ih =>
    cases size with
    | zero => rfl
    | succ size =>
      rw [getThreads, List.map_cons, List.filter_cons]
      by_cases skip : atoi name = 0 ∨ atoi name = pid
      · rw [if_pos skip, ih, if_neg]
        simpa [Decidable.imp_iff_not_or] using skip
      · rw [if_neg skip, ih, if_pos]
        · rfl
        · simpa [not_or] using skip

/-- The directory of a process whose threads are `tids`, in any order. -/
def ListsTasks (names : List (List Char)) (tids : List Nat) : Prop :=
  names.Perm (['.'] :: ['.', '.'] :: tids.map (Nat.toDigits 10))

/-- Where there is room for all, `GetThreads` gives every thread but the main one. -/
theorem getThreads_perm {names : List (List Char)} {tids : List Nat} {p size : Nat}
    (lists : ListsTasks names tids) (positive : ∀ u ∈ tids, 0 < u) (room : tids.length ≤ size) :
    (getThreads p size names).Perm ((tids.filter (· ≠ p)).map Int.ofNat) := by
  have numbers : (names.map atoi).Perm (0 :: 0 :: tids.map Int.ofNat) := by
    have := lists.map atoi
    rw [List.map_cons, List.map_cons, List.map_map] at this
    have dots : atoi ['.'] = 0 ∧ atoi ['.', '.'] = 0 := by decide
    rw [dots.1, dots.2] at this
    have same : tids.map (atoi ∘ Nat.toDigits 10) = tids.map Int.ofNat :=
      List.map_congr_left fun u _ => atoi_toDigits u
    rwa [same] at this
  have kept : (0 :: 0 :: tids.map Int.ofNat).filter (fun tid => tid ≠ 0 ∧ tid ≠ (p : Int)) =
      (tids.filter (· ≠ p)).map Int.ofNat := by
    rw [List.filter_cons_of_neg (by simp), List.filter_cons_of_neg (by simp), List.filter_map]
    congr 1
    apply List.filter_congr
    intro u mem
    have := positive u mem
    rw [Function.comp_apply, decide_eq_decide, Int.ofNat_eq_natCast]
    omega
  have filtered := numbers.filter fun tid => tid ≠ 0 ∧ tid ≠ (p : Int)
  rw [kept] at filtered
  rw [getThreads_eq, List.take_of_length_le]
  · exact filtered
  · rw [filtered.length_eq, List.length_map]
    exact (List.length_filter_le _ _).trans room

namespace Daemon

/-! ## The threads that are attached -/

/-- The first attach to a thread succeeds, and a second one fails. -/
def AttachesOnce (ptrace : List Int → Int → AttachOutcome) : Prop :=
  ∀ attempts tid, ptrace attempts tid = if tid ∈ attempts then .attachFails else .stopped

theorem AttachesOnce.attach {ptrace : List Int → Int → AttachOutcome} (once : AttachesOnce ptrace)
    (attempts : List Int) (tid : Int) : ptraceAttach (ptrace attempts tid) = decide (tid ∉ attempts) := by
  rw [once]
  by_cases mem : tid ∈ attempts <;> simp [mem, ptraceAttach]

/-- Of threads that come once, those become 0 that were attached before the loop. -/
theorem attachThreads_of_once {ptrace : List Int → Int → AttachOutcome} (once : AttachesOnce ptrace)
    (attempts : List Int) {tids : List Int} (distinct : tids.Nodup) :
    attachThreads ptrace attempts tids = tids.map fun u => if u ∈ attempts then 0 else u := by
  induction tids generalizing attempts with
  | nil => rfl
  | cons tid tids ih =>
    obtain ⟨new, rest⟩ := List.nodup_cons.mp distinct
    rw [attachThreads, ih (attempts ++ [tid]) rest, once.attach, List.map_cons]
    congr 1
    · by_cases mem : tid ∈ attempts <;> simp [mem]
    · apply List.map_congr_left
      intro u mem
      have ne : u ≠ tid := by
        rintro rfl
        exact new mem
      simp only [List.mem_append, List.mem_singleton, ne, or_false]

/-- Of the threads that `GetThreads` gives, those but the crashing one are attached. -/
theorem otherTids_of_once {w : World} {message : CrashMessage} (once : AttachesOnce w.ptrace)
    (distinct : (getThreads message.pid 64 w.tasks).Nodup)
    (nonzero : ∀ u ∈ getThreads message.pid 64 w.tasks, u ≠ 0) :
    (otherTids w message).filter (· ≠ 0) =
      (getThreads message.pid 64 w.tasks).filter (· ≠ message.tid) := by
  rw [otherTids, attachThreads_of_once once _ distinct]
  -- what is left is a fact about any threads that are not 0
  generalize getThreads message.pid 64 w.tasks = tids at nonzero
  induction tids with
  | nil => rfl
  | cons u tids ih =>
    have here := nonzero u List.mem_cons_self
    have rest := ih fun v mem => nonzero v (List.mem_cons_of_mem _ mem)
    rw [List.map_cons, List.filter_cons, List.filter_cons, rest]
    by_cases eq : u = message.tid
    · simp [eq]
    · simp [eq, here]

/-- The other threads that get a section: all threads but the main one and the crashing one. -/
theorem otherTids_perm {p t : Nat} {tids : List Nat} {w : World} {message : CrashMessage}
    (pid : message.pid = p) (tid : message.tid = t) (distinct : tids.Nodup)
    (few : tids.length ≤ 64) (positive : ∀ u ∈ tids, 0 < u) (lists : ListsTasks w.tasks tids)
    (once : AttachesOnce w.ptrace) :
    ((otherTids w message).filter (· ≠ 0)).Perm
      ((tids.filter fun u => u ≠ p ∧ u ≠ t).map Int.ofNat) := by
  have threads := getThreads_perm (p := p) lists positive few
  rw [← pid] at threads
  have distinct' : (getThreads message.pid 64 w.tasks).Nodup := by
    rw [threads.nodup_iff]
    exact (distinct.filter _).map Int.ofNat_injective
  have nonzero : ∀ u ∈ getThreads message.pid 64 w.tasks, u ≠ 0 := by
    intro u mem
    obtain ⟨v, mem', rfl⟩ := List.mem_map.mp (threads.mem_iff.mp mem)
    have := positive v (List.mem_filter.mp mem').1
    rw [Int.ofNat_eq_natCast]
    omega
  rw [otherTids_of_once once distinct' nonzero]
  have filtered := threads.filter (· ≠ message.tid)
  rw [List.filter_map, List.filter_filter, tid] at filtered
  rw [tid]
  have same : (tids.filter fun u => (((fun v : Int => decide (v ≠ t)) ∘ Int.ofNat) u &&
      decide (u ≠ p))) = tids.filter fun u => decide (u ≠ p ∧ u ≠ t) := by
    apply List.filter_congr
    intro u _
    rw [Function.comp_apply, Int.ofNat_eq_natCast, Bool.and_comm, ← Bool.decide_and,
      decide_eq_decide]
    omega
  rwa [same] at filtered

/-! ## The sections of a report -/

/-- The part is the stack of a thread. -/
def Part.isStack : Part → Bool
  | .crashThread _ | .otherThread _ => true
  | _ => false

theorem stacks_reportParts (w : World) (message : CrashMessage) :
    (reportParts w message).filter Part.isStack =
      .crashThread message.tid :: ((otherTids w message).filter (· ≠ 0)).map .otherThread := by
  have all : ∀ tids : List Int, (tids.map Part.otherThread).filter Part.isStack =
      tids.map Part.otherThread := by
    intro tids
    apply List.filter_eq_self.mpr
    intro part mem
    obtain ⟨u, -, rfl⟩ := List.mem_map.mp mem
    rfl
  rw [reportParts, List.cons_append, List.cons_append, List.filter_cons_of_neg Bool.false_ne_true,
    List.filter_cons_of_pos rfl, List.filter_append, all]
  exact congrArg _ (List.append_nil _)

/-- How `DaemonCreateReport` returns: with the report written and the threads detached where the
crashing thread is attached, and at once where it is not. -/
theorem daemonCreateReport_cases {w : World} {context : Context} {files : Files}
    {message : CrashMessage} {report : Report}
    (created : daemonCreateReport w context files message = some report) :
    (ptraceAttach (w.ptrace [] message.tid) = true ∧
      ∃ flushed, flushReport w (context.withLogFilePath w.crashTime) files message = some flushed ∧
        report = { returned := true, parts := writtenParts w context message
                   detached := detachedTids w message, context := flushed.1, files := flushed.2 }) ∨
    (ptraceAttach (w.ptrace [] message.tid) = false ∧
      report = { returned := false, parts := [], detached := [], context, files }) := by
  unfold daemonCreateReport at created
  cases attached : ptraceAttach (w.ptrace [] message.tid) with
  | true =>
    rw [if_pos attached] at created
    obtain ⟨flushed, done, rfl⟩ := Option.map_eq_some_iff.mp created
    exact .inl ⟨rfl, flushed, done, rfl⟩
  | false =>
    rw [attached, if_neg Bool.false_ne_true] at created
    cases created
    exact .inr ⟨rfl, rfl⟩

/-- What a report that was created has in it. -/
theorem daemonCreateReport_parts {w : World} {context : Context} {files : Files}
    {message : CrashMessage} {report : Report}
    (created : daemonCreateReport w context files message = some report) :
    report.parts = writtenParts w context message := by
  obtain ⟨-, flushed, -, rfl⟩ | ⟨failed, rfl⟩ := daemonCreateReport_cases created
  · rfl
  · rw [writtenParts, failed]
    rfl

/-- **What a report covers.** Let the process `p` have the threads `tids`, at most 63 beside its main
thread, listed in its task directory in any order, let thread `t` of it crash, and let every thread
be attached once. The stacks in the report are that of `t` as the crashing thread and one of each
other thread, if and only if `t` is the main thread and the daemon has its report buffer. -/
theorem covers_iff_main_crashed (p t : Nat) (tids : List Nat) (w : World) (context : Context)
    (files : Files) (message : CrashMessage) (report : Report)
    (created : daemonCreateReport w context files message = some report)
    (pid : message.pid = p) (tid : message.tid = t)
    (distinct : tids.Nodup) (main : p ∈ tids) (few : tids.length ≤ 64)
    (positive : ∀ u ∈ tids, 0 < u) (lists : ListsTasks w.tasks tids)
    (once : AttachesOnce w.ptrace) :
    (report.parts.filter Part.isStack).Perm
        (.crashThread t :: (tids.filter (· ≠ t)).map fun u : Nat => .otherThread u) ↔
      t = p ∧ context.hasBuffer = true := by
  rw [daemonCreateReport_parts created]
  have others := otherTids_perm pid tid distinct few positive lists once
  have attached : ptraceAttach (w.ptrace [] message.tid) = true := by
    rw [once.attach]
    rfl
  rw [writtenParts, attached, Bool.true_and]
  cases context.hasBuffer with
  | false => simp
  | true =>
    rw [if_pos rfl, stacks_reportParts, tid, List.perm_cons]
    constructor
    · intro covers
      refine ⟨?_, rfl⟩
      by_contra ne
      -- the main thread did not crash, so it needs a section and has none
      have needed : Part.otherThread p ∈
          (tids.filter (· ≠ t)).map fun u : Nat => Part.otherThread u := by
        refine List.mem_map.mpr ⟨p, List.mem_filter.mpr ⟨main, ?_⟩, rfl⟩
        simpa using Ne.symm ne
      obtain ⟨u, mem, eq⟩ := List.mem_map.mp (covers.mem_iff.mpr needed)
      obtain ⟨v, mem', rfl⟩ := List.mem_map.mp (others.mem_iff.mp mem)
      have same : v = p := Int.ofNat_injective (Part.otherThread.inj eq)
      have away := (List.mem_filter.mp mem').2
      simp [same] at away
    · rintro ⟨rfl, -⟩
      have sections := others.map Part.otherThread
      rw [List.map_map] at sections
      simp only [and_self] at sections
      exact sections

/-- A process with the main thread 7 and the thread 8. -/
def twoThreads : World :=
  { ptrace := fun attempts tid => if tid ∈ attempts then .attachFails else .stopped
    tasks := ['.'] :: ['.', '.'] :: [7, 8].map (Nat.toDigits 10)
    crashTime := 0
    dump := fun _ _ => [] }

/-- A crash of a thread of process 7. -/
def crashOf (tid : Int) : CrashMessage :=
  { pid := 7, tid, signo := 11, siCode := 1, faultAddr := 0, context := [] }

/-- A context with a folder and a fresh report buffer. -/
def buffered : Context :=
  { logFolderPath := some [0x2f, 0x65]
    mmapGuard := some (MmapGuard.new (some []) (400 * 1024) true true)
    socketAddress := ⟨1, []⟩ }

/-- The main thread crashes. -/
theorem main_crash_covered :
    ∃ report, daemonCreateReport twoThreads buffered (fun _ => none) (crashOf 7) = some report ∧
      (report.parts.filter Part.isStack).Perm
        (.crashThread 7 :: ([7, 8].filter (· ≠ 7)).map fun u : Nat => .otherThread u) :=
  ⟨_, rfl, (covers_iff_main_crashed 7 7 [7, 8] twoThreads buffered (fun _ => none) (crashOf 7) _ rfl
    rfl rfl (by simp) (by simp) (by simp) (by simp) (List.Perm.refl _)
    (fun _ _ => rfl)).mpr ⟨rfl, rfl⟩⟩

/-- Thread 8 crashes, and the report has no stack of the main thread. -/
theorem background_crash_not_covered :
    ∃ report, daemonCreateReport twoThreads buffered (fun _ => none) (crashOf 8) = some report ∧
      report.parts.filter Part.isStack = [.crashThread 8] ∧
      ¬ (report.parts.filter Part.isStack).Perm
        (.crashThread 8 :: ([7, 8].filter (· ≠ 8)).map fun u : Nat => .otherThread u) := by
  have only : (writtenParts twoThreads buffered (crashOf 8)).filter Part.isStack =
      [.crashThread 8] := by decide +kernel
  refine ⟨_, rfl, only, fun covers => ?_⟩
  have length := covers.length_eq
  rw [only] at length
  cases length

end Daemon

end Dolin.Hawkeye
