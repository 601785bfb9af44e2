import Mathlib.Data.List.Nodup
import Dolin.Hawkeye.Monitor

/-!
# The list of activities

`ActivityMonitor` puts an activity at the front of its list when it is created and takes none out
when it is destroyed. The list is therefore the activities most recently created, whatever became of
them. It shows the live ones only as long as each activity that is destroyed was too old to be in it,
or is the one activity the application ever had: that one's destruction finishes the list, and the
next creation finds it null.

`History` is what the framework did, and knows nothing of the list.
-/

namespace Dolin.Hawkeye.Monitor

variable {A : Type}

/-- The callbacks of `ActivityMonitor` that concern its list. -/
inductive Callback (A : Type) where
  | onActivityCreated (activity : A)
  | onActivityDestroyed (activity : A)
  deriving DecidableEq

/-- What a callback makes of the monitor; `none` where it throws. -/
def State.callback (s : State A) : Callback A → Option (State A)
  | .onActivityCreated activity => s.onActivityCreated activity
  | .onActivityDestroyed _ => some s.onActivityDestroyed.1

/-- `onActivityDestroyed` runs `finishAllActivities`: it makes the native calls of it. -/
def State.Finishes (s : State A) : Prop := s.onActivityDestroyed.2 = s.finishAllActivities.2

/-! ## What the framework did -/

/-- The activities that were created and those that were destroyed, most recent first. -/
structure History (A : Type) where
  created : List A := []
  destroyed : List A := []

namespace History

/-- The history after a callback. -/
def after (h : History A) : Callback A → History A
  | .onActivityCreated activity => { h with created := activity :: h.created }
  | .onActivityDestroyed activity => { h with destroyed := activity :: h.destroyed }

variable [DecidableEq A]

/-- The activities created and not yet destroyed, most recent first. -/
def live (h : History A) : List A := h.created.filter (· ∉ h.destroyed)

/-- An activity is an object of its own, created once. It is destroyed at most once, and only after
it was created. -/
def Allows (h : History A) : Callback A → Prop
  | .onActivityCreated activity => activity ∉ h.created
  | .onActivityDestroyed activity => activity ∈ h.created ∧ activity ∉ h.destroyed

/-- Every callback of the list is allowed where it comes. -/
def AllowsAll : History A → List (Callback A) → Prop
  | _, [] => True
  | h, c :: callbacks => h.Allows c ∧ (h.after c).AllowsAll callbacks

/-- No activity among those most recently created is destroyed, but for the only one that was ever
created, after whose destruction no callback comes. -/
def Spares : History A → List (Callback A) → Prop
  | _, [] => True
  | h, .onActivityCreated activity :: callbacks =>
    (h.after (.onActivityCreated activity)).Spares callbacks
  | h, .onActivityDestroyed activity :: callbacks =>
    activity ∉ h.created.take MAX_ACTIVITY_NUM ∧
        (h.after (.onActivityDestroyed activity)).Spares callbacks ∨
      h.created = [activity] ∧ callbacks = []

instance (h : History A) : (c : Callback A) → Decidable (h.Allows c)
  | .onActivityCreated activity => inferInstanceAs (Decidable (activity ∉ h.created))
  | .onActivityDestroyed activity =>
    inferInstanceAs (Decidable (activity ∈ h.created ∧ activity ∉ h.destroyed))

instance decidableAllowsAll : (h : History A) → (callbacks : List (Callback A)) →
    Decidable (h.AllowsAll callbacks)
  | _, [] => inferInstanceAs (Decidable True)
  | h, c :: callbacks =>
    haveI := decidableAllowsAll (h.after c) callbacks
    inferInstanceAs (Decidable (h.Allows c ∧ (h.after c).AllowsAll callbacks))

instance decidableSpares : (h : History A) → (callbacks : List (Callback A)) →
    Decidable (h.Spares callbacks)
  | _, [] => inferInstanceAs (Decidable True)
  | h, .onActivityCreated activity :: callbacks =>
    decidableSpares (h.after (.onActivityCreated activity)) callbacks
  | h, .onActivityDestroyed activity :: callbacks =>
    haveI := decidableSpares (h.after (.onActivityDestroyed activity)) callbacks
    inferInstanceAs (Decidable (activity ∉ h.created.take MAX_ACTIVITY_NUM ∧
        (h.after (.onActivityDestroyed activity)).Spares callbacks ∨
      h.created = [activity] ∧ callbacks = []))

/-- The list shows the live activities, cut to the most recent ones. A list that is null shows
none. -/
def Shown (h : History A) (s : State A) : Prop :=
  s.activities.getD [] = h.live.take MAX_ACTIVITY_NUM

/-- A callback finishes everything exactly when it is the destruction of the last live activity.
The monitor is the one before the callback, and the history the one after it. -/
def FinishesLast (h' : History A) (s : State A) : Callback A → Prop
  | .onActivityCreated _ => True
  | .onActivityDestroyed _ => s.Finishes ↔ h'.live = []

/-- Callback after callback, none throws, the list shows the live activities and everything is
finished with the last of them. -/
def Tracked : History A → State A → List (Callback A) → Prop
  | _, _, [] => True
  | h, s, c :: callbacks =>
    ∃ s', s.callback c = some s' ∧ (h.after c).Shown s' ∧ (h.after c).FinishesLast s c ∧
      (h.after c).Tracked s' callbacks

end History

/-! ## The list of the most recent ones -/

/-- `addFirst` and `removeLast` keep the most recent ones. -/
theorem State.tracked_take (activity : A) (activities : List A) :
    State.tracked activity (activities.take MAX_ACTIVITY_NUM) =
      (activity :: activities).take MAX_ACTIVITY_NUM := by
  unfold State.tracked
  have short : (activities.take MAX_ACTIVITY_NUM).length = min MAX_ACTIVITY_NUM activities.length :=
    List.length_take
  split
  next long =>
    rw [List.length_cons, short] at long
    rw [List.dropLast_eq_take, List.length_cons, short, Nat.add_sub_cancel]
    have full : min MAX_ACTIVITY_NUM activities.length = MAX_ACTIVITY_NUM := by omega
    rw [full, show MAX_ACTIVITY_NUM = 99 + 1 from rfl, List.take_succ_cons, List.take_succ_cons,
      List.take_take]
    rfl
  next fits =>
    rw [List.length_cons, short] at fits
    have all : activities.length < MAX_ACTIVITY_NUM := by omega
    rw [List.take_of_length_le (Nat.le_of_lt all), List.take_of_length_le all]

/-- A destruction touches a list of two or more activities no more than a null one. -/
theorem State.onActivityDestroyed_of_many {s : State A} {activities : List A}
    (list : s.activities = some activities)
    (many : activities.length ≠ 1) : s.onActivityDestroyed = (s, []) := by
  unfold State.onActivityDestroyed
  split
  next one => rw [list] at one; cases one; exact absurd rfl many
  next => rfl

theorem release_ne_nil (boost : BoostCrashHandler) : boost.release ≠ [] := by
  simp [BoostCrashHandler.release]

/-- A destruction that changes nothing does not finish. -/
theorem State.not_finishes_of_same {s : State A} (same : s.onActivityDestroyed = (s, [])) : ¬ s.Finishes := by
  intro finishes
  rw [State.Finishes, same] at finishes
  exact release_ne_nil s.boost finishes.symm

variable [DecidableEq A]

/-- Taking out what is not among the first leaves the first. -/
theorem take_filter_ne {a : A} {l : List A} {n : Nat} (absent : a ∉ l.take n) :
    (l.filter (· ≠ a)).take n = l.take n := by
  have first : (l.take n).filter (· ≠ a) = l.take n := by
    rw [List.filter_eq_self]
    intro b mem
    rw [decide_eq_true_eq]
    rintro rfl
    exact absent mem
  rw [← List.take_append_drop n l, List.filter_append, first, List.take_append_drop]
  rcases Nat.le_total n l.length with long | short
  · have len : (l.take n).length = n := by rw [List.length_take, Nat.min_eq_left long]
    rw [List.take_append_of_le_length (Nat.le_of_eq len.symm), List.take_of_length_le (by omega)]
  · rw [List.drop_eq_nil_of_le short, List.filter_nil, List.append_nil,
      List.take_of_length_le (by rw [List.length_take]; omega)]

namespace History

variable {h : History A} {s : State A} {activity : A}

@[simp] theorem live_after_created (fresh : activity ∉ h.destroyed) :
    (h.after (.onActivityCreated activity)).live = activity :: h.live := by
  change (activity :: h.created).filter (· ∉ h.destroyed) = _
  rw [List.filter_cons_of_pos (by simpa using fresh)]
  rfl

@[simp] theorem live_after_destroyed :
    (h.after (.onActivityDestroyed activity)).live = h.live.filter (· ≠ activity) := by
  change h.created.filter (· ∉ activity :: h.destroyed) = _
  rw [live, List.filter_filter]
  apply List.filter_congr
  intro b _
  simp

/-- The invariant of a run that has gone well: the list is the activities most recently created, and
they are live. -/
structure Follows (h : History A) (s : State A) : Prop where
  activities : s.activities = some (h.created.take MAX_ACTIVITY_NUM)
  live : h.live.take MAX_ACTIVITY_NUM = h.created.take MAX_ACTIVITY_NUM
  created_nodup : h.created.Nodup
  destroyed_subset : h.destroyed ⊆ h.created

theorem Follows.shown (f : Follows h s) : h.Shown s := by
  rw [Shown, f.activities, f.live]
  rfl

theorem follows_new (boost : BoostCrashHandler) : Follows (A := A) {} { boost } :=
  ⟨rfl, rfl, List.nodup_nil, List.nil_subset _⟩

/-- A creation goes well. -/
theorem Follows.created (f : Follows h s) (fresh : activity ∉ h.created) :
    ∃ s', s.onActivityCreated activity = some s' ∧
      Follows (h.after (.onActivityCreated activity)) s' := by
  refine ⟨_, by rw [State.onActivityCreated, f.activities]; rfl, ?_, ?_, ?_, ?_⟩
  · exact congrArg some (State.tracked_take activity h.created)
  · rw [live_after_created fun mem => fresh (f.destroyed_subset mem)]
    have one : ∀ l : List A, (activity :: l).take MAX_ACTIVITY_NUM =
        activity :: (l.take MAX_ACTIVITY_NUM).take 99 := by
      intro l
      rw [List.take_take]
      rfl
    rw [one, f.live, ← one]
    rfl
  · exact List.nodup_cons.mpr ⟨fresh, f.created_nodup⟩
  · exact fun b mem => List.mem_cons_of_mem _ (f.destroyed_subset mem)

/-- The destruction of an activity that has dropped out of the list changes nothing, and the list
still shows the live ones. -/
theorem Follows.destroyed_old (f : Follows h s) (created : activity ∈ h.created)
    (old : activity ∉ h.created.take MAX_ACTIVITY_NUM) :
    s.onActivityDestroyed = (s, []) ∧ Follows (h.after (.onActivityDestroyed activity)) s ∧
      (h.after (.onActivityDestroyed activity)).live ≠ [] := by
  have full : (h.created.take MAX_ACTIVITY_NUM).length = MAX_ACTIVITY_NUM := by
    rw [List.length_take, Nat.min_eq_left]
    by_contra short
    rw [List.take_of_length_le (by omega)] at old
    exact old created
  have live : (h.after (.onActivityDestroyed activity)).live.take MAX_ACTIVITY_NUM =
      h.created.take MAX_ACTIVITY_NUM := by
    rw [live_after_destroyed, take_filter_ne, f.live]
    rwa [f.live]
  refine ⟨State.onActivityDestroyed_of_many f.activities (by rw [full]; decide), ?_, ?_⟩
  · exact ⟨f.activities, live, f.created_nodup,
      List.cons_subset.mpr ⟨created, f.destroyed_subset⟩⟩
  · intro nil
    rw [nil, List.take_nil] at live
    rw [← live] at full
    cases full

/-- The destruction of the only activity that was ever created finishes everything. -/
theorem Follows.destroyed_only (f : Follows h s) (only : h.created = [activity]) :
    s.onActivityDestroyed = s.finishAllActivities ∧
      (h.after (.onActivityDestroyed activity)).live = [] := by
  constructor
  · rw [State.onActivityDestroyed, f.activities, only]
    rfl
  · rw [History.live]
    change h.created.filter _ = []
    rw [only]
    simp [after]

/-- The destruction of one activity of several that are in the list leaves it there. -/
theorem Follows.destroyed_recent (f : Follows h s)
    (recent : activity ∈ h.created.take MAX_ACTIVITY_NUM) (several : h.created ≠ [activity]) :
    s.onActivityDestroyed = (s, []) ∧ ¬ (h.after (.onActivityDestroyed activity)).Shown s := by
  constructor
  · apply State.onActivityDestroyed_of_many f.activities
    intro one
    obtain ⟨b, single⟩ := List.length_eq_one_iff.mp one
    have short : h.created.length ≤ MAX_ACTIVITY_NUM := by
      rw [List.length_take] at one
      have : MAX_ACTIVITY_NUM = 100 := rfl
      omega
    rw [List.take_of_length_le short] at single recent
    rw [single] at recent several
    exact several (by rw [List.mem_singleton.mp recent])
  · rw [Shown, f.activities, live_after_destroyed]
    intro shown
    have mem : activity ∈ (h.live.filter (· ≠ activity)).take MAX_ACTIVITY_NUM := shown ▸ recent
    simpa using List.mem_of_mem_take mem

/-- Nothing may come after the destruction of the only activity: a creation finds the list null, and
there is nothing left to destroy. -/
theorem tracked_after_only (only : h.created = [activity]) (finished : s.activities = none)
    {callbacks : List (Callback A)}
    (allowed : (h.after (.onActivityDestroyed activity)).AllowsAll callbacks) :
    (h.after (.onActivityDestroyed activity)).Tracked s callbacks ↔ callbacks = [] := by
  cases callbacks with
  | nil => exact ⟨fun _ => rfl, fun _ => trivial⟩
  | cons c callbacks =>
    refine ⟨?_, nofun⟩
    rintro ⟨s', next, -⟩
    cases c with
    | onActivityCreated b =>
      rw [State.callback, State.onActivityCreated, finished] at next
      cases next
    | onActivityDestroyed b =>
      obtain ⟨mem, left⟩ := allowed.1
      change b ∈ h.created at mem
      rw [only, List.mem_singleton] at mem
      exact absurd (mem ▸ List.mem_cons_self) left

/-- A run that has gone well goes on well exactly when it spares the recent activities. -/
theorem Follows.tracked_iff (f : Follows h s) {callbacks : List (Callback A)}
    (allowed : h.AllowsAll callbacks) : h.Tracked s callbacks ↔ h.Spares callbacks := by
  induction callbacks generalizing h s with
  | nil => exact Iff.rfl
  | cons c callbacks ih =>
    obtain ⟨now, later⟩ := allowed
    cases c with
    | onActivityCreated activity =>
      obtain ⟨s', next, follows⟩ := f.created now
      rw [Spares, ← ih follows later]
      constructor
      · rintro ⟨s'', next', -, -, rest⟩
        cases next.symm.trans next'
        exact rest
      · exact fun rest => ⟨s', next, follows.shown, trivial, rest⟩
    | onActivityDestroyed activity =>
      rw [Spares]
      by_cases recent : activity ∈ h.created.take MAX_ACTIVITY_NUM
      · by_cases only : h.created = [activity]
        · obtain ⟨finishes, nil⟩ := f.destroyed_only only
          have rest := tracked_after_only only (s := s.finishAllActivities.1) rfl later
          have shown : (h.after (.onActivityDestroyed activity)).Shown s.finishAllActivities.1 := by
            rw [Shown, nil]
            rfl
          constructor
          · rintro ⟨s', next, -, -, tracked⟩
            rw [State.callback, finishes] at next
            cases next
            exact .inr ⟨only, rest.mp tracked⟩
          · rintro (⟨old, -⟩ | ⟨-, last⟩)
            · exact absurd recent old
            · refine ⟨s.finishAllActivities.1, ?_, shown, ⟨fun _ => nil, fun _ => ?_⟩, rest.mpr last⟩
              · rw [State.callback, finishes]
              · rw [State.Finishes, finishes]
        · obtain ⟨same, unshown⟩ := f.destroyed_recent recent only
          constructor
          · rintro ⟨s', next, shown, -⟩
            rw [State.callback, same] at next
            cases next
            exact absurd shown unshown
          · rintro (⟨old, -⟩ | ⟨single, -⟩)
            · exact absurd recent old
            · exact absurd single only
      · obtain ⟨same, follows, alive⟩ := f.destroyed_old now.1 recent
        constructor
        · rintro ⟨s', next, -, -, rest⟩
          rw [State.callback, same] at next
          cases next
          exact .inl ⟨recent, (ih follows later).mp rest⟩
        · rintro (⟨-, spares⟩ | ⟨only, -⟩)
          · refine ⟨s, by rw [State.callback, same], follows.shown, ?_, (ih follows later).mpr spares⟩
            exact ⟨fun finishes => absurd finishes (State.not_finishes_of_same same),
              fun nil => absurd nil alive⟩
          · rw [only] at recent
            exact absurd List.mem_cons_self recent

end History

/-- **The list of activities.** For every allowed sequence of creations and destructions: none of the
callbacks throws, the list shows the live activities after each of them, and everything is finished
with the last live activity, if and only if the sequence spares the most recent activities. -/
theorem tracked_iff_spares (boost : BoostCrashHandler) (callbacks : List (Callback A))
    (allowed : History.AllowsAll {} callbacks) :
    History.Tracked {} { boost } callbacks ↔ History.Spares {} callbacks :=
  (History.follows_new boost).tracked_iff allowed

/-- When the hundred and first activity is there, the first is destroyed. -/
def oldestDestroyed : List (Callback Nat) :=
  (List.range 101).map .onActivityCreated ++ [.onActivityDestroyed 0]

/-- The one before the last of three is destroyed. -/
def middleDestroyed : List (Callback Nat) :=
  [.onActivityCreated 0, .onActivityCreated 1, .onActivityCreated 2, .onActivityDestroyed 1]

/-- The list follows the first of these and does not follow the second. -/
theorem tracked_iff_spares_oldest :
    History.Tracked {} { boost := {} } oldestDestroyed ∧
      ¬ History.Tracked {} { boost := {} } middleDestroyed := by
  constructor
  · exact (tracked_iff_spares {} oldestDestroyed (by decide +kernel)).mpr (by decide +kernel)
  · exact (tracked_iff_spares {} middleDestroyed (by decide)).not.mpr (by decide)

/-- Of two activities the second is destroyed. It stays in the list, in front of the live one. -/
theorem destroyed_activity_stays :
    History.AllowsAll (A := Nat) {}
        [.onActivityCreated 0, .onActivityCreated 1, .onActivityDestroyed 1] ∧
      ¬ History.Tracked (A := Nat) {} { boost := {} }
        [.onActivityCreated 0, .onActivityCreated 1, .onActivityDestroyed 1] := by
  constructor
  · decide
  · rintro ⟨s₁, created₁, -, -, s₂, created₂, -, -, s₃, destroyed, shown, -⟩
    cases created₁
    cases created₂
    cases destroyed
    cases shown

end Dolin.Hawkeye.Monitor
