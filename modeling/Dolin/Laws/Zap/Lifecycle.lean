import Dolin.Base.Handle
import Dolin.Zap.Print

/-!
# The native pointer over the life of the application

`releaseNative` runs in `recycle` and nowhere else, and `recycle` leaves the pointer in `ZapRecord`
and every flag set. So the first `recycle` that releases is the end: the callback is unregistered and
`Zap.initialize` does nothing any more, but each further `recycle`, and each log call that
`recordLevel` lets through, is made on the released pointer.
-/

namespace Dolin.Zap

open Handle

/-- The pointer that a native method of `ZapRecord` is invoked with. -/
def JniCall.given : JniCall → Option Int64
  | .initNative .. => none
  | .writeNative ptr _ | .asyncFlushNative ptr | .expLogFileNative ptr _ _ | .releaseNative ptr
  | .isLogFileOverSizeNative ptr => some ptr

/-- The pointer that a native method frees. -/
def JniCall.released : JniCall → Option Int64
  | .releaseNative ptr => some ptr
  | _ => none

/-- The native methods as an interface of handles. -/
def jni : Api JniCall Int64 := { given := JniCall.given, released := JniCall.released }

/-! ## The record -/

namespace ZapRecord

variable {r : ZapRecord}

theorem asyncFlush_ptr (r : ZapRecord) (overSize : Bool) : (r.asyncFlush overSize).1.ptr = r.ptr := by
  unfold asyncFlush
  split
  · split
    · rfl
    · rfl
  · rfl

/-- `asyncFlush` is on the pointer, and releases nothing. -/
theorem asyncFlush_calls (r : ZapRecord) (overSize : Bool) :
    ∀ c ∈ (r.asyncFlush overSize).2, c.given = some r.ptr ∧ c.released = none := by
  unfold asyncFlush
  split
  · split
    · simp [JniCall.given, JniCall.released]
    · simp [JniCall.given, JniCall.released]
  · simp

theorem write_calls (r : ZapRecord) (msg : String) :
    ∀ c ∈ r.write msg, c.given = some r.ptr ∧ c.released = none := by
  unfold write
  split
  · simp [JniCall.given, JniCall.released]
  · simp

end ZapRecord

namespace Singletons

variable {s : Singletons}

/-! ## Until the release -/

/-- The next `recycle` releases the pointer. -/
def Releases (s : Singletons) : Prop := s.hasInitialized = true ∧ s.record.ptr ≠ 0

/-- The call ends in a native call, where there is a pointer to make it on. -/
def Records (s : Singletons) : ZapCall → Bool
  | .recycle _ => true
  | .d _ => s.print.records .debug
  | .i _ => s.print.records .info
  | .w _ => s.print.records .warning
  | .e _ => s.print.records .error
  | .initializeZap .. | .activityPaused _ => false

/-- A `recycle` that releases is followed by no `recycle` and by no log call that is recorded. -/
def QuietAfterRelease (s : Singletons) : List ZapCall → Prop
  | [] => True
  | .recycle overSize :: calls =>
    (s.Releases → ∀ call ∈ calls, s.Records call = false) ∧
      QuietAfterRelease (s.step (.recycle overSize)).1 calls
  | call :: calls => QuietAfterRelease (s.step call).1 calls

/-- Where `Zap` is initialized, so is `ZapPrint`; and the callback is registered by an `initialize`
that ran to its end, with an application to unregister it from. -/
structure Sound (s : Singletons) : Prop where
  agree : s.hasInitialized = true → s.print.hasInitialized = true
  callback : s.lifecycle.registered = true →
    s.print.hasInitialized = true ∧ s.lifecycle.application = true

/-- A log call that `print` records is one `writeNative`, where there is a pointer. -/
theorem log_eq (s : Singletons) (level : Level) (line : String) :
    s.log level line =
      if s.hasInitialized && s.print.records level then s.record.write line else [] := by
  unfold log ZapPrint.print ZapPrint.records
  cases s.hasInitialized with
  | false => rfl
  | true =>
    cases s.print.interceptLogcat level with
    | none => simp
    | some logcat =>
      cases s.print.interceptRecord level with
      | none => simp
      | some intercepted => cases intercepted <;> cases s.print.recordEnable <;> rfl

theorem log_calls (s : Singletons) (level : Level) (line : String) :
    ∀ c ∈ s.log level line, c.given = some s.record.ptr ∧ c.released = none := by
  rw [log_eq]
  split
  · exact s.record.write_calls line
  · simp

theorem Sound.initializePrint (sound : Sound s) (fresh : s.print.hasInitialized = false)
    (application : Bool) (config : Config) (answers : InitAnswers) :
    Sound (s.initializePrint application config answers).1 := by
  have off : s.hasInitialized ≠ true := by
    intro on
    rw [sound.agree on] at fresh
    cases fresh
  have out : s.lifecycle.registered ≠ true := by
    intro on
    rw [(sound.callback on).1] at fresh
    cases fresh
  unfold Singletons.initializePrint
  dsimp only
  split
  · exact ⟨fun on => absurd on off, fun on => absurd on out⟩
  · split
    · cases application with
      | true => exact ⟨fun _ => rfl, fun _ => ⟨rfl, rfl⟩⟩
      | false =>
        refine ⟨fun on => absurd on off, fun on => absurd ?_ out⟩
        exact (Bool.or_false _).symm.trans on
    · exact ⟨fun _ => rfl, fun on => absurd on out⟩

theorem Sound.unregister (sound : Sound s) :
    s.lifecycle.unregisterZapLifeCallback.registered = false := by
  unfold ZapLifecycle.unregisterZapLifeCallback
  split
  · rfl
  next unset =>
    cases on : s.lifecycle.registered with
    | false => rfl
    | true => exact absurd (sound.callback on).2 unset

/-- **The step** keeps the flags in line. -/
theorem Sound.step (sound : Sound s) (call : ZapCall) : Sound (s.step call).1 := by
  cases call with
  | initializeZap application config answers =>
    cases fresh : s.print.hasInitialized with
    | true =>
      simp only [Singletons.step, fresh, if_true]
      exact ⟨fun _ => fresh, sound.callback⟩
    | false =>
      cases config with
      | none => simpa only [Singletons.step, fresh, Bool.false_eq_true, if_false] using sound
      | some config =>
        simpa only [Singletons.step, fresh, Bool.false_eq_true, if_false] using
          sound.initializePrint fresh application config answers
  | recycle overSize =>
    simp only [Singletons.step]
    split
    · refine ⟨sound.agree, ?_⟩
      intro on
      exact absurd (sound.unregister.symm.trans on) Bool.false_ne_true
    · exact sound
  | activityPaused overSize =>
    simp only [Singletons.step, onActivityPaused]
    split
    · exact ⟨sound.agree, sound.callback⟩
    · exact sound
  | d line => exact sound
  | i line => exact sound
  | w line => exact sound
  | e line => exact sound

/-- Only a `recycle` that finds a pointer releases. -/
theorem step_releases_nothing {call : ZapCall}
    (other : ∀ overSize, call = .recycle overSize → ¬ s.Releases) :
    ∀ c ∈ (s.step call).2, jni.released c = none := by
  cases call with
  | initializeZap application config answers =>
    simp only [step]
    split
    · simp
    · split
      · unfold initializePrint
        dsimp only
        split
        · simp
        · split
          · split
            · simp [initRecord, ZapRecord.init, jni, JniCall.released]
            · simp [initRecord, ZapRecord.init, jni, JniCall.released]
          · simp
      · simp
  | recycle overSize =>
    simp only [step]
    split
    next on =>
      have null : s.record.ptr = 0 := by
        by_contra ptr
        exact other overSize rfl ⟨on, ptr⟩
      have flushed : s.record.asyncFlush overSize = (s.record, []) := by
        simp only [ZapRecord.asyncFlush, null, ne_eq, not_true_eq_false, if_false]
      simp [recycle, flushed, ZapRecord.release, null]
    next => simp
  | activityPaused overSize =>
    simp only [step, onActivityPaused]
    split
    · exact fun c mem => (s.record.asyncFlush_calls overSize c mem).2
    · simp
  | d line => exact fun c mem => (s.log_calls _ line c mem).2
  | i line => exact fun c mem => (s.log_calls _ line c mem).2
  | w line => exact fun c mem => (s.log_calls _ line c mem).2
  | e line => exact fun c mem => (s.log_calls _ line c mem).2

/-! ## After the release -/

/-- `recycle` has released `ptr`, and nothing else has changed. -/
structure Spent (ptr : Int64) (s : Singletons) : Prop where
  on : s.hasInitialized = true
  ready : s.print.hasInitialized = true
  out : s.lifecycle.registered = false
  held : s.record.ptr = ptr
  ne : ptr ≠ 0

/-- What `recycle` does with a pointer: it releases it last, after calls that release nothing. -/
theorem recycle_calls (s : Singletons) (overSize : Bool) (ptr : s.record.ptr ≠ 0) :
    ∃ before, (s.recycle overSize).2 = before ++ [.releaseNative s.record.ptr] ∧
      ∀ c ∈ before, c.given = some s.record.ptr ∧ c.released = none := by
  have release : ∀ r : ZapRecord, r.ptr = s.record.ptr →
      r.release = [.releaseNative s.record.ptr] := by
    intro r same
    rw [ZapRecord.release, same, if_pos ptr]
  unfold recycle
  dsimp only
  split
  · exact ⟨_, by rw [release _ (s.record.asyncFlush_ptr overSize)],
      s.record.asyncFlush_calls overSize⟩
  · exact ⟨[], by rw [release _ rfl], by simp⟩

theorem recycle_spent (sound : Sound s) (releases : s.Releases) (overSize : Bool) :
    Spent s.record.ptr (s.recycle overSize).1 ∧ (s.recycle overSize).1.print = s.print := by
  refine ⟨⟨releases.1, sound.agree releases.1, sound.unregister, ?_, releases.2⟩, rfl⟩
  unfold recycle
  dsimp only
  split
  · exact s.record.asyncFlush_ptr overSize
  · rfl

namespace Spent

variable {ptr : Int64}

/-- A log call is recorded, on the released pointer, where the level is let through. -/
theorem log (spent : Spent ptr s) (level : Level) (line : String) :
    s.log level line = if s.print.records level then [.writeNative ptr line] else [] := by
  rw [log_eq, spent.on, Bool.true_and, ZapRecord.write, spent.held, if_pos spent.ne]

theorem sound (spent : Spent ptr s) : Sound s :=
  ⟨fun _ => spent.ready, fun on => absurd (spent.out.symm.trans on) Bool.false_ne_true⟩

/-- Nothing changes any more but the number of the part. -/
theorem step (spent : Spent ptr s) (call : ZapCall) :
    Spent ptr (s.step call).1 ∧ (s.step call).1.print = s.print := by
  cases call with
  | initializeZap application config answers =>
    simp only [Singletons.step, spent.ready, if_true]
    exact ⟨⟨rfl, spent.ready, spent.out, spent.held, spent.ne⟩, trivial⟩
  | recycle overSize =>
    simp only [Singletons.step, spent.on, if_true]
    have after := recycle_spent spent.sound ⟨spent.on, spent.held ▸ spent.ne⟩ overSize
    rwa [spent.held] at after
  | activityPaused overSize =>
    simp only [Singletons.step, onActivityPaused, spent.out, Bool.false_eq_true, if_false]
    exact ⟨spent, trivial⟩
  | d line => exact ⟨spent, rfl⟩
  | i line => exact ⟨spent, rfl⟩
  | w line => exact ⟨spent, rfl⟩
  | e line => exact ⟨spent, rfl⟩

/-- Every native call is on the released pointer, and there is one where the call records. -/
theorem calls (spent : Spent ptr s) (call : ZapCall) :
    (∀ c ∈ (s.step call).2, c.given = some ptr) ∧
      ((s.step call).2 = [] ↔ s.Records call = false) := by
  have logged : ∀ (level : Level) (line : String), (∀ c ∈ s.log level line, c.given = some ptr) ∧
      (s.log level line = [] ↔ s.print.records level = false) := by
    intro level line
    rw [spent.log]
    cases s.print.records level with
    | true => simp [JniCall.given]
    | false => simp
  cases call with
  | initializeZap application config answers =>
    simp [Singletons.step, spent.ready, Records]
  | recycle overSize =>
    simp only [Singletons.step, spent.on, if_true, Records]
    obtain ⟨before, eq, given⟩ := s.recycle_calls overSize (spent.held ▸ spent.ne)
    rw [eq, spent.held]
    rw [spent.held] at given
    refine ⟨?_, by simp⟩
    intro c mem
    rcases List.mem_append.mp mem with old | last
    · exact (given c old).1
    · cases List.mem_singleton.mp last
      rfl
  | activityPaused overSize =>
    simp [Singletons.step, onActivityPaused, spent.out, Records]
  | d line => exact logged .debug line
  | i line => exact logged .info line
  | w line => exact logged .warning line
  | e line => exact logged .error line

end Spent

theorem records_congr {s' : Singletons} (same : s'.print = s.print) (call : ZapCall) :
    s'.Records call = s.Records call := by
  cases call <;> simp only [Records, same]

/-- **The run** after the release: every native call is on the released pointer, and there is none
where nothing is recorded. -/
theorem Spent.trace {ptr : Int64} (spent : Spent ptr s) (calls : List ZapCall) :
    (∀ c ∈ s.trace calls, c.given = some ptr) ∧
      (s.trace calls = [] ↔ ∀ call ∈ calls, s.Records call = false) := by
  induction calls generalizing s with
  | nil => simp [Singletons.trace]
  | cons call calls ih =>
    obtain ⟨given, none⟩ := spent.calls call
    obtain ⟨spent', same⟩ := spent.step call
    obtain ⟨rest, rest_none⟩ := ih spent'
    simp only [records_congr same] at rest_none
    constructor
    · intro c mem
      rcases List.mem_append.mp mem with first | later
      · exact given c first
      · exact rest c later
    · rw [Singletons.trace, List.append_eq_nil_iff, none, rest_none, List.forall_mem_cons]

/-- Where nothing is recorded, nothing is released again. -/
theorem quiet_of_not_records {calls : List ZapCall}
    (none : ∀ call ∈ calls, s.Records call = false) {s' : Singletons} :
    s'.QuietAfterRelease calls := by
  induction calls generalizing s' with
  | nil => trivial
  | cons call calls ih =>
    obtain ⟨first, rest⟩ := List.forall_mem_cons.mp none
    cases call with
    | recycle overSize => cases first
    | _ => exact ih rest

/-- **The discipline, from any state in which nothing was released.** -/
theorem Sound.disciplined_iff (sound : Sound s) (calls : List ZapCall) :
    jni.Disciplined (s.trace calls) ↔ s.QuietAfterRelease calls := by
  induction calls generalizing s with
  | nil => exact ⟨fun _ => trivial, fun _ => List.Pairwise.nil⟩
  | cons call calls ih =>
    have rest := ih (sound.step call)
    -- a call that releases nothing leaves the question to the rest
    have passed : (∀ overSize, call = .recycle overSize → ¬ s.Releases) →
        (jni.Disciplined (s.trace (call :: calls)) ↔
          (s.step call).1.QuietAfterRelease calls) := by
      intro other
      rw [Singletons.trace, disciplined_append_iff (step_releases_nothing other), rest]
    cases call with
    | recycle overSize =>
      by_cases releases : s.Releases
      · have now : s.step (.recycle overSize) = s.recycle overSize := if_pos releases.1
        obtain ⟨before, eq, none⟩ := s.recycle_calls overSize releases.2
        obtain ⟨spent, same⟩ := recycle_spent sound releases overSize
        obtain ⟨given, nil_iff⟩ := spent.trace calls
        simp only [records_congr same] at nil_iff
        rw [QuietAfterRelease, Singletons.trace, now, eq, List.append_assoc,
          disciplined_append_iff fun c mem => (none c mem).2, List.singleton_append,
          disciplined_release_iff rfl given, nil_iff]
        exact ⟨fun quiet => ⟨fun _ => quiet, quiet_of_not_records quiet⟩, fun h => h.1 releases⟩
      · rw [passed fun _ _ => releases, QuietAfterRelease]
        exact ⟨fun h => ⟨fun now => absurd now releases, h⟩, And.right⟩
    | _ => exact passed nofun

/-- **The native pointer.** For every sequence of public calls and callbacks from the start of the
application, no native method is invoked with a released pointer if and only if the first `recycle`
that releases is followed by no `recycle` and by no log call that is recorded. -/
theorem disciplined_iff_quiet_after_release (calls : List ZapCall) :
    jni.Disciplined (trace {} calls) ↔ QuietAfterRelease {} calls :=
  Sound.disciplined_iff
    ⟨fun on => absurd on Bool.false_ne_true, fun on => absurd on Bool.false_ne_true⟩ calls

/-- A log call after `recycle` writes to the released pointer. -/
theorem write_after_recycle :
    ¬ jni.Disciplined (trace {} [.initializeZap true (some {}) { native := some 1 },
      .recycle false, .d "late"]) := by
  decide +kernel

end Singletons

end Dolin.Zap
