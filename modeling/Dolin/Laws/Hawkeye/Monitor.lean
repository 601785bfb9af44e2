import Dolin.Base.Handle
import Dolin.Hawkeye.Monitor

/-!
# The native buffers over the life of the application

Two places release the buffers, and neither clears the pointers. An uncaught exception releases them
and kills the process. The destruction of the only activity that was ever created releases them and
leaves the process running: from then on an uncaught exception records into released buffers and
releases them again, and so does the creation of an activity, which throws.
-/

namespace Dolin.Hawkeye.Monitor

open Handle

variable {A : Type}

/-- The pointer that a native method is given. -/
def given : NativeMethod → Option Int64
  | .record2Buffer ptr _ | .flushLog2File ptr _ | .releaseBuffer ptr => some ptr
  | .releaseCxxCrashDaemon => none

/-- The pointer that a native method releases. -/
def released : NativeMethod → Option Int64
  | .releaseBuffer ptr => some ptr
  | _ => none

/-- The native methods as an interface of handles. -/
def nativeMethods : Api NativeMethod Int64 := { given, released }

/-- Two buffers were made. -/
structure Ready (h : BoostCrashHandler) : Prop where
  java : h.javaCrashPtr ≠ 0
  anr : h.anrCrashPtr ≠ 0
  apart : h.javaCrashPtr ≠ h.anrCrashPtr

namespace Event

/-- The event creates an activity. -/
def isCreated : Event A → Bool
  | .onActivityCreated _ => true
  | _ => false

/-- The event is an uncaught exception. -/
def isUncaught : Event A → Bool
  | .uncaughtException _ _ => true
  | _ => false

/-- The event uses the buffers of an application that has released them. -/
def touches (e : Event A) : Bool := e.isCreated || e.isUncaught

end Event

/-! ## What the buffers are given -/

variable {s : State A} {npe : String × String}

theorem release_eq {h : BoostCrashHandler} (ready : Ready h) :
    h.release = [.releaseBuffer h.javaCrashPtr, .releaseBuffer h.anrCrashPtr,
      .releaseCxxCrashDaemon] := by
  simp [BoostCrashHandler.release, ready.java, ready.anr]

/-- A release is in order by itself, and nothing may be recorded after it. -/
theorem disciplined_release {h : BoostCrashHandler} (ready : Ready h)
    (after : List NativeMethod) (java : ∀ c ∈ after.head?, given c = some h.javaCrashPtr) :
    nativeMethods.Disciplined (h.release ++ after) ↔ after = [] := by
  rw [release_eq ready]
  constructor
  · intro disciplined
    cases after with
    | nil => rfl
    | cons c after =>
      have apart := (List.pairwise_cons.mp disciplined).1 c (by simp)
      exact absurd (java c rfl) (apart _ rfl)
  · rintro rfl
    simp [Api.Disciplined, Api.Apart, nativeMethods, given, released, ready.apart.symm]

/-- What an uncaught exception does by itself is in order. -/
theorem disciplined_uncaught (ready : Ready s.boost) (report logPath : String) :
    nativeMethods.Disciplined (s.uncaughtException report logPath).2 := by
  have quiet : ∀ c ∈ s.boost.record report false ++ s.boost.flush logPath false,
      nativeMethods.released c = none := by
    simp [BoostCrashHandler.record, BoostCrashHandler.flush, nativeMethods, released]
  apply (disciplined_append_iff quiet).mpr
  have := (disciplined_release ready [] nofun).mpr rfl
  rwa [List.append_nil] at this

/-! ## The two ways to go on -/

theorem trace_of_killed (killed : s.running = false) (events : List (Event A)) :
    trace npe s events = [] := by
  cases events with
  | nil => rfl
  | cons e events => rw [trace, killed, if_neg Bool.false_ne_true]

/-- A running application that has released its buffers calls nothing until an event that uses them,
and that event starts with the released pointer. -/
theorem trace_of_finished (npe : String × String) (running : s.running = true) (finished : s.activities = none)
    (events : List (Event A)) :
    (trace npe s events = [] ↔ ∀ e ∈ events, e.touches = false) ∧
      ∀ c ∈ (trace npe s events).head?, given c = some s.boost.javaCrashPtr := by
  induction events generalizing s with
  | nil => exact ⟨⟨nofun, fun _ => rfl⟩, nofun⟩
  | cons e events ih =>
    -- an event that does not use the buffers leads to such an application again
    have keep : ∀ s' : State A, s'.running = true → s'.activities = none →
        s'.boost = s.boost → handle npe s e = (s', []) → e.touches = false →
        (trace npe s (e :: events) = [] ↔ ∀ e' ∈ e :: events, e'.touches = false) ∧
          ∀ c ∈ (trace npe s (e :: events)).head?, given c = some s.boost.javaCrashPtr := by
      intro s' running' finished' same handled untouched
      rw [trace, running, if_pos rfl, handled, List.nil_append, ← same]
      refine ⟨(ih running' finished').1.trans ?_, (ih running' finished').2⟩
      rw [List.forall_mem_cons]
      exact ⟨fun rest => ⟨untouched, rest⟩, And.right⟩
    have use : ∀ report logPath, handle npe s e = s.uncaughtException report logPath →
        e.touches = true →
        (trace npe s (e :: events) = [] ↔ ∀ e' ∈ e :: events, e'.touches = false) ∧
          ∀ c ∈ (trace npe s (e :: events)).head?, given c = some s.boost.javaCrashPtr := by
      intro report logPath handled touched
      rw [trace, running, if_pos rfl, handled]
      refine ⟨⟨nofun, fun all => ?_⟩, ?_⟩
      · rw [all e List.mem_cons_self] at touched
        cases touched
      · intro c mem
        cases mem
        rfl
    cases e with
    | onActivityCreated a =>
      refine use npe.1 npe.2 ?_ rfl
      simp only [handle, State.onActivityCreated, finished, Option.map_none]
    | uncaughtException report logPath => exact use report logPath rfl rfl
    | onActivityDestroyed a =>
      refine keep s running finished rfl ?_ rfl
      simp only [handle, State.onActivityDestroyed, finished]
    | onActivityResumed a => exact keep s.onActivityResumed running finished rfl rfl rfl
    | onActivityPaused a changing =>
      exact keep (s.onActivityPaused changing) running finished rfl rfl rfl
    | onActivityStarted a => exact keep _ running finished rfl rfl rfl
    | onActivityStopped a => exact keep _ running finished rfl rfl rfl
    | onActivitySaveInstanceState a => exact keep _ running finished rfl rfl rfl

/-! ## The events -/

/-- After the destruction of an activity while exactly one was ever created, in an application that
no exception has killed, no activity is created and no exception is left uncaught. `created` were
created before. -/
def QuietFrom (created : Nat) (events : List (Event A)) : Prop :=
  ∀ before a after, events = before ++ .onActivityDestroyed a :: after →
    created + before.countP Event.isCreated = 1 → (∀ e ∈ before, e.isUncaught = false) →
    ∀ e ∈ after, e.touches = false

/-- The events never use the buffers after they are released. -/
def Quiet (events : List (Event A)) : Prop := QuietFrom 0 events

/-- An event that destroys nothing and leaves nothing uncaught only counts. -/
theorem quietFrom_cons_iff {created : Nat} {e : Event A} {events : List (Event A)}
    (keeps : ∀ a, e ≠ .onActivityDestroyed a) (caught : e.isUncaught = false) :
    QuietFrom created (e :: events) ↔
      QuietFrom (created + if e.isCreated then 1 else 0) events := by
  constructor
  · intro quiet before a after eq one none
    apply quiet (e :: before) a after (by rw [eq, List.cons_append])
    · rw [List.countP_cons]
      omega
    · exact List.forall_mem_cons.mpr ⟨caught, none⟩
  · intro quiet before a after eq one none
    cases before with
    | nil =>
      obtain ⟨rfl, -⟩ := List.cons.inj eq
      exact absurd rfl (keeps a)
    | cons e' before =>
      obtain ⟨rfl, eq'⟩ := List.cons.inj eq
      apply quiet before a after eq'
      · rw [List.countP_cons] at one
        omega
      · exact (List.forall_mem_cons.mp none).2

/-- The destruction of an activity. -/
theorem quietFrom_destroyed_iff {created : Nat} {a : A} {events : List (Event A)} :
    QuietFrom created (.onActivityDestroyed a :: events) ↔
      (created = 1 → ∀ e ∈ events, e.touches = false) ∧ QuietFrom created events := by
  constructor
  · intro quiet
    constructor
    · intro one
      exact quiet [] a events rfl one nofun
    · intro before b after eq one none
      apply quiet (.onActivityDestroyed a :: before) b after (by rw [eq, List.cons_append])
      · rw [List.countP_cons]
        exact one
      · exact List.forall_mem_cons.mpr ⟨rfl, none⟩
  · rintro ⟨first, quiet⟩ before b after eq one none
    cases before with
    | nil =>
      obtain ⟨-, rfl⟩ := List.cons.inj eq
      exact first one
    | cons e' before =>
      obtain ⟨rfl, eq'⟩ := List.cons.inj eq
      apply quiet before b after eq'
      · rw [List.countP_cons] at one
        exact one
      · exact (List.forall_mem_cons.mp none).2

/-- Where nothing uses the buffers, the events are quiet. -/
theorem quietFrom_of_untouched {created : Nat} {events : List (Event A)}
    (all : ∀ e ∈ events, e.touches = false) : QuietFrom created events := by
  intro before a after eq _ _ e mem
  apply all
  rw [eq]
  exact List.mem_append_right _ (List.mem_cons_of_mem _ mem)

/-- After an uncaught exception nothing counts. -/
theorem quietFrom_uncaught {created : Nat} {report logPath : String} {events : List (Event A)} :
    QuietFrom created (.uncaughtException report logPath :: events) := by
  intro before a after eq _ none
  cases before with
  | nil => cases eq
  | cons e' before =>
    obtain ⟨rfl, -⟩ := List.cons.inj eq
    have := none _ List.mem_cons_self
    cases this

/-! ## The whole life -/

/-- Where the list has another number of activities, a destroyed one changes nothing. -/
theorem onActivityDestroyed_of_many {activities : List A} (tracked : s.activities = some activities)
    (many : activities.length ≠ 1) : s.onActivityDestroyed = (s, []) := by
  unfold State.onActivityDestroyed
  split
  next b single =>
    rw [tracked] at single
    cases single
    exact absurd rfl many
  next => rfl

/-- The application runs, and `created` activities were created. -/
structure Live (created : Nat) (s : State A) (activities : List A) : Prop where
  running : s.running = true
  tracked : s.activities = some activities
  length : activities.length = min created MAX_ACTIVITY_NUM

theorem length_tracked {created : Nat} {activities : List A}
    (length : activities.length = min created MAX_ACTIVITY_NUM) (a : A) :
    (State.tracked a activities).length = min (created + 1) MAX_ACTIVITY_NUM := by
  unfold State.tracked
  unfold MAX_ACTIVITY_NUM at *
  split
  next many => rw [List.length_dropLast, List.length_cons]; rw [List.length_cons] at many; omega
  next few => rw [List.length_cons] at few ⊢; omega

theorem disciplined_iff_quietFrom {created : Nat} {activities : List A}
    (ready : Ready s.boost) (live : Live created s activities)
    (events : List (Event A)) :
    nativeMethods.Disciplined (trace npe s events) ↔ QuietFrom created events := by
  induction events generalizing s created activities with
  | nil =>
    refine ⟨fun _ before a after eq => ?_, fun _ => List.Pairwise.nil⟩
    simp at eq
  | cons e events ih =>
    obtain ⟨running, tracked, length⟩ := live
    -- a callback that calls nothing and leaves the list
    have other : ∀ s' : State A, s'.boost = s.boost → s'.running = true →
        s'.activities = some activities → handle npe s e = (s', []) → e.isCreated = false →
        (∀ a, e ≠ .onActivityDestroyed a) → e.isUncaught = false →
        (nativeMethods.Disciplined (trace npe s (e :: events)) ↔ QuietFrom created (e :: events)) := by
      intro s' same running' tracked' handled not_created keeps caught
      rw [trace, running, if_pos rfl, handled, List.nil_append, quietFrom_cons_iff keeps caught,
        not_created]
      exact ih (same ▸ ready) ⟨running', tracked', length⟩
    cases e with
    | onActivityCreated a =>
      rw [quietFrom_cons_iff nofun rfl, trace, running, if_pos rfl]
      simp only [handle, State.onActivityCreated, tracked, Option.map_some, List.nil_append]
      exact ih ready ⟨running, rfl, length_tracked length a⟩
    | onActivityDestroyed a =>
      rw [quietFrom_destroyed_iff, trace, running, if_pos rfl]
      by_cases one : created = 1
      · -- the only activity there ever was: the buffers go, and the process runs on
        have single : ∃ b, activities = [b] := by
          rw [← List.length_eq_one_iff, length, one]
          rfl
        obtain ⟨b, rfl⟩ := single
        simp only [handle, State.onActivityDestroyed, tracked, State.finishAllActivities]
        have after := trace_of_finished (s := { s with activities := none }) npe running rfl events
        rw [disciplined_release ready _ after.2, after.1]
        exact ⟨fun all => ⟨fun _ => all, quietFrom_of_untouched all⟩, fun quiet => quiet.1 one⟩
      · have many : activities.length ≠ 1 := by
          rw [length]
          unfold MAX_ACTIVITY_NUM
          omega
        simp only [handle, onActivityDestroyed_of_many tracked many, List.nil_append]
        rw [ih ready ⟨running, tracked, length⟩]
        exact ⟨fun quiet => ⟨fun eq => absurd eq one, quiet⟩, And.right⟩
    | uncaughtException report logPath =>
      rw [trace, running, if_pos rfl]
      simp only [handle]
      rw [trace_of_killed rfl, List.append_nil]
      exact ⟨fun _ => quietFrom_uncaught, fun _ => disciplined_uncaught ready report logPath⟩
    | onActivityResumed a =>
      exact other s.onActivityResumed rfl running tracked rfl rfl nofun rfl
    | onActivityPaused a changing =>
      exact other (s.onActivityPaused changing) rfl running tracked rfl rfl nofun rfl
    | onActivityStarted a => exact other s rfl running tracked rfl rfl nofun rfl
    | onActivityStopped a => exact other s rfl running tracked rfl rfl nofun rfl
    | onActivitySaveInstanceState a => exact other s rfl running tracked rfl rfl nofun rfl

/-- **The buffers' handles.** For every list of events after `Hawkeye.initialize`, whatever the
exception of a callback reports: no native method is given a buffer that was released, a second
release included, if and only if after the destruction that releases the buffers no activity is
created and no exception is left uncaught. -/
theorem disciplined_iff_quiet (boost : BoostCrashHandler) (ready : Ready boost)
    (npe : String × String) (events : List (Event A)) :
    nativeMethods.Disciplined (trace npe { boost } events) ↔ Quiet events :=
  disciplined_iff_quietFrom ready ⟨rfl, rfl, rfl⟩ events

/-- Two activities come and go, and then an exception is left uncaught: all is in order. -/
theorem two_activities_quiet :
    Ready ⟨1, 2⟩ ∧ Quiet (A := Nat) [.onActivityCreated 0, .onActivityCreated 1,
      .onActivityDestroyed 1, .onActivityDestroyed 0, .uncaughtException "r" "/p"] := by
  have ready : Ready ⟨1, 2⟩ := ⟨by decide, by decide, by decide⟩
  exact ⟨ready, (disciplined_iff_quiet ⟨1, 2⟩ ready ("", "") _).mp (by decide +kernel)⟩

/-- The only activity is destroyed, and an exception in the background is left uncaught: the report is
recorded into the buffer that was released, and both buffers are released again. -/
theorem background_crash_uses_released :
    trace (A := Nat) ("", "") { boost := ⟨1, 2⟩ }
        [.onActivityCreated 0, .onActivityDestroyed 0, .uncaughtException "r" "/p"] =
      [.releaseBuffer 1, .releaseBuffer 2, .releaseCxxCrashDaemon, .record2Buffer 1 "r",
        .flushLog2File 1 "/p", .releaseBuffer 1, .releaseBuffer 2, .releaseCxxCrashDaemon] ∧
      ¬ nativeMethods.Disciplined (trace (A := Nat) ("", "") { boost := ⟨1, 2⟩ }
        [.onActivityCreated 0, .onActivityDestroyed 0, .uncaughtException "r" "/p"]) := by
  constructor
  · decide +kernel
  · decide +kernel

end Dolin.Hawkeye.Monitor
