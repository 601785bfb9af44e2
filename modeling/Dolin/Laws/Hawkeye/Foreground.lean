import Mathlib.Algebra.Group.Nat.Defs
import Mathlib.Data.Finset.Card
import Dolin.Hawkeye.Monitor

/-!
# The foreground

`isApplicationForeground` is a flag that is written where the counter of resumed activities passes
between 0 and 1, unless the last pause was for a configuration change. So the flag says: there is a
resumed activity, or one is about to come back. The counter is an `int`, which counts fewer than `2 ^ 31`.
-/

namespace Dolin.Hawkeye.Monitor

variable {A : Type}

/-- The callbacks of `ActivityMonitor` that concern its flag. -/
inductive Switch (A : Type) where
  | onActivityResumed (activity : A)
  | onActivityPaused (activity : A) (isChangingConfigurations : Bool)

/-- The callback as an event of the application. -/
def Switch.event : Switch A → Event A
  | .onActivityResumed activity => .onActivityResumed activity
  | .onActivityPaused activity isChangingConfigurations =>
    .onActivityPaused activity isChangingConfigurations

/-- The monitor after some of them. -/
def State.switchAll (npe : String × String) (s : State A) (switches : List (Switch A)) : State A :=
  switches.foldl (fun s c => (handle npe s c.event).1) s

/-- What the framework did: the activities that are resumed, and what the most recent pause was
for. -/
structure Front (A : Type) where
  resumed : Finset A := ∅
  changing : Bool := false

namespace Front

variable [DecidableEq A]

/-- What the framework did after a callback. -/
def after (f : Front A) : Switch A → Front A
  | .onActivityResumed activity => { f with resumed := insert activity f.resumed }
  | .onActivityPaused activity isChangingConfigurations =>
    { resumed := f.resumed.erase activity, changing := isChangingConfigurations }

/-- An activity is paused while it is resumed, and resumed while it is not. -/
def Allows (f : Front A) : Switch A → Prop
  | .onActivityResumed activity => activity ∉ f.resumed
  | .onActivityPaused activity _ => activity ∈ f.resumed

/-- Every callback of the list is allowed where it comes. -/
def AllowsAll : Front A → List (Switch A) → Prop
  | _, [] => True
  | f, c :: switches => f.Allows c ∧ (f.after c).AllowsAll switches

omit [DecidableEq A] in
/-- The counter counts the resumed activities, and the flag is set where there is one or the most
recent pause was for a configuration change. -/
structure Shown (f : Front A) (s : State A) : Prop where
  activityReferences : s.activityReferences.toInt = f.resumed.card
  isApplicationForeground : s.isAppForeground = true ↔ f.resumed.Nonempty ∨ f.changing = true
  isActivityChangingConfigurations : s.isActivityChangingConfigurations = f.changing

variable {f : Front A} {s : State A} {npe : String × String}

/-! ## The counter -/

omit [DecidableEq A] in
/-- What holds however many activities are resumed: the counter is their number as an `int`. -/
structure Counted (f : Front A) (s : State A) : Prop where
  activityReferences : s.activityReferences = Int32.ofNat f.resumed.card
  isActivityChangingConfigurations : s.isActivityChangingConfigurations = f.changing

omit [DecidableEq A] in
theorem Counted.toInt (h : f.Counted s) (few : f.resumed.card < 2 ^ 31) :
    s.activityReferences.toInt = f.resumed.card := by
  rw [h.activityReferences, Int32.toInt_ofNat_of_lt few]

/-- One callback. -/
theorem Counted.step (h : f.Counted s) {c : Switch A} (allowed : f.Allows c) (npe : String × String) :
    (f.after c).Counted (handle npe s c.event).1 := by
  cases c with
  | onActivityResumed activity =>
    refine ⟨?_, h.isActivityChangingConfigurations⟩
    change s.activityReferences + 1 = Int32.ofNat (insert activity f.resumed).card
    rw [h.activityReferences, Finset.card_insert_of_notMem allowed, Int32.ofNat_add]
    rfl
  | onActivityPaused activity changing =>
    refine ⟨?_, rfl⟩
    change s.activityReferences - 1 = Int32.ofNat (f.resumed.erase activity).card
    rw [h.activityReferences, ← Finset.card_erase_add_one allowed, Int32.ofNat_add]
    exact Int32.add_sub_cancel _ _

/-! ## The flag -/

/-- The flag, as long as an `int` counts the activities: it is written where the counter comes to 1 or to
0, and there it is the number. -/
theorem Shown.step (h : f.Shown s) {c : Switch A} (counted : (f.after c).Counted (handle npe s c.event).1)
    (allowed : f.Allows c) (few : (f.after c).resumed.card < 2 ^ 31) :
    (f.after c).Shown (handle npe s c.event).1 := by
  have flag := h.isApplicationForeground
  refine ⟨counted.toInt few, ?_, counted.isActivityChangingConfigurations⟩
  have count := counted.toInt few
  cases c with
  | onActivityResumed activity =>
    have some : (insert activity f.resumed).Nonempty := ⟨activity, Finset.mem_insert_self _ _⟩
    refine iff_of_true ?_ (.inl some)
    simp only [handle, Switch.event, State.onActivityResumed, h.isActivityChangingConfigurations,
      Bool.or_eq_true, Bool.and_eq_true, decide_eq_true_eq, Bool.not_eq_true']
    -- the flag is not yet set only where nothing was resumed and nothing is about to come back
    rcases Finset.eq_empty_or_nonempty f.resumed with none | before
    · cases changing : f.changing with
      | true => exact .inl (flag.mpr (.inr changing))
      | false =>
        have one : (f.after (.onActivityResumed activity)).resumed.card = 1 := by
          rw [after, none]
          exact Finset.card_singleton activity
        rw [one] at count
        exact .inr ⟨Int32.toInt_inj.mp count, rfl⟩
    · exact .inl (flag.mpr (.inl before))
  | onActivityPaused activity changing =>
    have set : s.isAppForeground = true := flag.mpr (.inl ⟨activity, allowed⟩)
    have empty : s.activityReferences - 1 = 0 ↔ ¬ (f.resumed.erase activity).Nonempty := by
      change (s.activityReferences - 1).toInt = (f.resumed.erase activity).card at count
      rw [← Int32.toInt_inj, count, Int32.toInt_zero, ← Finset.card_pos]
      omega
    simp only [handle, Switch.event, State.onActivityPaused, after, set, Bool.true_and, Bool.not_eq_true',
      Bool.and_eq_false_iff, decide_eq_false_iff_not, Bool.not_eq_false', empty, not_not]

/-! ## All callbacks -/

/-- Fewer activities are resumed than an `int` counts, after each of some callbacks. -/
def Few (f : Front A) (switches : List (Switch A)) : Prop :=
  ∀ before, before <+: switches → (before.foldl after f).resumed.card < 2 ^ 31

theorem Few.tail {c : Switch A} {switches : List (Switch A)} (few : f.Few (c :: switches)) :
    (f.after c).Few switches := fun before pre =>
  few (c :: before) (List.cons_prefix_cons.mpr ⟨rfl, pre⟩)

/-- A callback resumes one activity at most. -/
theorem card_foldl_le (switches : List (Switch A)) :
    (switches.foldl after f).resumed.card ≤ f.resumed.card + switches.length := by
  induction switches generalizing f with
  | nil => exact Nat.le_refl _
  | cons c switches ih =>
    have one : (f.after c).resumed.card ≤ f.resumed.card + 1 := by
      cases c with
      | onActivityResumed activity => exact Finset.card_insert_le activity f.resumed
      | onActivityPaused activity changing =>
        exact Nat.le_succ_of_le (Finset.card_le_card (Finset.erase_subset activity f.resumed))
    have rest := ih (f := f.after c)
    rw [List.foldl_cons, List.length_cons]
    omega

theorem few_of_length {switches : List (Switch A)} (short : f.resumed.card + switches.length < 2 ^ 31) :
    f.Few switches := by
  intro before pre
  have le := pre.length_le
  have bound := card_foldl_le (f := f) before
  omega

/-- The counter and the flag after each callback of a list. -/
theorem Counted.run (h : f.Counted s) {switches : List (Switch A)} (allowed : f.AllowsAll switches)
    (npe : String × String) {before : List (Switch A)} (pre : before <+: switches) :
    (before.foldl after f).Counted (s.switchAll npe before) ∧
      (f.Shown s → f.Few before → (before.foldl after f).Shown (s.switchAll npe before)) := by
  induction before generalizing f s switches with
  | nil => exact ⟨h, fun shown _ => shown⟩
  | cons c before ih =>
    obtain ⟨rest, rfl⟩ := pre
    obtain ⟨first, later⟩ := allowed
    have next := h.step first npe
    obtain ⟨counted, shown⟩ := ih next later (List.prefix_append _ _)
    exact ⟨counted, fun now few => shown (now.step next first (few.tail [] List.nil_prefix)) few.tail⟩

end Front

/-- **The foreground.** For every list of callbacks in which an activity is paused only while it is
resumed and resumed only while it is not: after each of them `activityReferences` is the number of
resumed activities as an `int`. As long as there were fewer of them than an `int` counts, it is the
number, and the application is in the foreground exactly where one is resumed or the most recent pause
was for a configuration change. -/
theorem foreground_shown [DecidableEq A] (npe : String × String) (boost : BoostCrashHandler)
    (switches : List (Switch A)) (allowed : Front.AllowsAll {} switches) (before : List (Switch A))
    (pre : before <+: switches) :
    (State.switchAll npe { boost } before).activityReferences =
        Int32.ofNat (before.foldl Front.after {}).resumed.card ∧
      (Front.Few {} before →
        (before.foldl Front.after {}).Shown (State.switchAll npe { boost } before)) := by
  have none : Front.Counted (A := A) {} { boost } := ⟨rfl, rfl⟩
  have start : Front.Shown (A := A) {} { boost } := by
    refine ⟨rfl, ?_, rfl⟩
    simp
  obtain ⟨counted, shown⟩ := none.run allowed npe pre
  exact ⟨counted.activityReferences, shown start⟩

/-- Activity 0 is paused for a configuration change while 1 is resumed, and 1 is paused for good. -/
def twoSwitches : List (Switch Nat) :=
  [.onActivityResumed 0, .onActivityResumed 1, .onActivityPaused 0 true, .onActivityPaused 1 false]

/-- The application is then in the background. -/
theorem foreground_shown_two :
    (State.switchAll ("", "") { boost := {} } twoSwitches).isAppForeground = false ∧
      (twoSwitches.foldl Front.after {}).Shown
        (State.switchAll ("", "") { boost := {} } twoSwitches) := by
  refine ⟨rfl, (foreground_shown ("", "") {} twoSwitches ?_ twoSwitches (List.prefix_refl _)).2
    (Front.few_of_length (by decide))⟩
  simp [twoSwitches, Front.AllowsAll, Front.Allows, Front.after]

end Dolin.Hawkeye.Monitor
