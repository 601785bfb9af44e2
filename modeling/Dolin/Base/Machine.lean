import Mathlib.Data.List.Basic

/-!
# Runs of a labelled machine

A machine is its step function: from a state, an action gives the next state, or `none` where the
action is not enabled or goes wrong. A run is a list of actions.

Six rules carry every proof about runs. `run_keeps` is the invariant rule. `run_keeps_of_meets`
is the invariant rule for the runs whose every step meets a condition on the state before it.
`meets_or_ends` says what becomes of the other runs. `run_consumes` is the invariant rule for what
also speaks of the actions that are left. `run_refines_of_meets` carries a relation to a total
abstract machine through such a run, and shows on the way that the run completes. `run_projects`
takes the run of a machine that knows more back to the machine below it.
-/

namespace Machine

variable {σ τ α : Type}

/-- The state after a list of actions. -/
def run (step : σ → α → Option σ) : σ → List α → Option σ
  | s, [] => some s
  | s, a :: as => (step s a).bind fun s' => run step s' as

/-- Every step of the run meets `P` in the state before it. -/
def Meets (step : σ → α → Option σ) (P : σ → α → Prop) : σ → List α → Prop
  | _, [] => True
  | s, a :: as => P s a ∧ ∀ s', step s a = some s' → Meets step P s' as

variable {step : σ → α → Option σ}

/-- Whether every step of a given run meets a decidable condition can be computed. -/
instance decidableMeets {P : σ → α → Prop} [∀ s a, Decidable (P s a)] :
    (s : σ) → (as : List α) → Decidable (Meets step P s as)
  | _, [] => isTrue trivial
  | s, a :: as =>
    match hs : step s a with
    | none => decidable_of_iff (P s a)
        ⟨fun h => ⟨h, fun _ h' => absurd (hs.symm.trans h') nofun⟩, And.left⟩
    | some s' =>
      have : Decidable (Meets step P s' as) := decidableMeets s' as
      decidable_of_iff (P s a ∧ Meets step P s' as)
        ⟨fun h => ⟨h.1, fun _ ht => Option.some.inj (hs.symm.trans ht) ▸ h.2⟩,
          fun h => ⟨h.1, h.2 s' hs⟩⟩

/-- A completed run of one action and more is a step and a completed run. -/
theorem run_cons_some {s t : σ} {a : α} {as : List α} (h : run step s (a :: as) = some t) :
    ∃ s', step s a = some s' ∧ run step s' as = some t := Option.bind_eq_some_iff.mp h

/-- Where the first action can be taken, the rest of the run starts where it leads. -/
theorem meets_cons_iff {P : σ → α → Prop} {s s' : σ} {a : α} {as : List α}
    (h : step s a = some s') : Meets step P s (a :: as) ↔ P s a ∧ Meets step P s' as := by
  refine and_congr_right fun _ => ⟨fun meets => meets s' h, fun meets s'' h' => ?_⟩
  cases h.symm.trans h'
  exact meets

/-- **The invariant rule**: what every step keeps, every run keeps. -/
theorem run_keeps (Inv : σ → Prop)
    (keeps : ∀ s a s', Inv s → step s a = some s' → Inv s')
    {s t : σ} {as : List α} (start : Inv s) (h : run step s as = some t) : Inv t := by
  induction as generalizing s with
  | nil => cases h; exact start
  | cons a as ih =>
    obtain ⟨s', hs, ht⟩ := run_cons_some h
    exact ih (keeps s a s' start hs) ht

/-- **The conditional invariant rule**: what every step that meets `P` keeps, every run whose
steps all meet `P` keeps. -/
theorem run_keeps_of_meets (Inv : σ → Prop) {P : σ → α → Prop}
    (keeps : ∀ s a s', Inv s → P s a → step s a = some s' → Inv s')
    {s t : σ} {as : List α} (start : Inv s) (meets : Meets step P s as)
    (h : run step s as = some t) : Inv t := by
  induction as generalizing s with
  | nil => cases h; exact start
  | cons a as ih =>
    obtain ⟨s', hs, ht⟩ := run_cons_some h
    exact ih (keeps s a s' start meets.1 hs) (meets.2 s' hs) ht

/-- **The rule for the actions to come**: an invariant of the state and of the actions that are left
holds at the end with none left. -/
theorem run_consumes (Inv : σ → List α → Prop)
    (keeps : ∀ s a as s', Inv s (a :: as) → step s a = some s' → Inv s' as)
    {s t : σ} {as : List α} (start : Inv s as) (h : run step s as = some t) : Inv t [] := by
  induction as generalizing s with
  | nil => cases h; exact start
  | cons a as ih =>
    obtain ⟨s', hs, ht⟩ := run_cons_some h
    exact ih (keeps s a as s' start hs) ht

/-- **The refinement rule**: where every step that meets `P` completes and follows a total abstract
step, every run whose steps all meet `P` completes and follows the abstract run. -/
theorem run_refines_of_meets {R : σ → τ → Prop} {abstract : τ → α → τ} {P : σ → α → Prop}
    (follows : ∀ s c a, P s a → R s c → ∃ s', step s a = some s' ∧ R s' (abstract c a))
    {s : σ} {c : τ} (start : R s c) {as : List α} (meets : Meets step P s as) :
    ∃ t, run step s as = some t ∧ R t (as.foldl abstract c) := by
  induction as generalizing s c with
  | nil => exact ⟨s, rfl, start⟩
  | cons a as ih =>
    obtain ⟨s', hs, hr⟩ := follows s c a meets.1 start
    obtain ⟨t, ht, hrt⟩ := ih hr (meets.2 s' hs)
    exact ⟨t, by rw [run, hs, Option.bind_some, ht], hrt⟩

/-- **The projection rule**: where the steps of a machine are steps of another one on a part of its
state, so are its runs. -/
theorem run_projects {part : τ → σ} {above : τ → α → Option τ}
    (follows : ∀ t a t', above t a = some t' → step (part t) a = some (part t'))
    {t t' : τ} {as : List α} (h : run above t as = some t') :
    run step (part t) as = some (part t') := by
  induction as generalizing t with
  | nil => cases h; rfl
  | cons a as ih =>
    obtain ⟨t₁, first, rest⟩ := run_cons_some h
    rw [run, follows t a t₁ first, Option.bind_some]
    exact ih rest

/-- Conditions on the part carry over as well. -/
theorem meets_projects {part : τ → σ} {above : τ → α → Option τ} {P : σ → α → Prop}
    (follows : ∀ t a t', above t a = some t' → step (part t) a = some (part t'))
    {t t' : τ} {as : List α} (h : run above t as = some t')
    (meets : Meets above (fun t a => P (part t) a) t as) : Meets step P (part t) as := by
  induction as generalizing t with
  | nil => trivial
  | cons a as ih =>
    obtain ⟨t₁, first, rest⟩ := run_cons_some h
    exact (meets_cons_iff (follows t a t₁ first)).mpr ⟨meets.1, ih rest (meets.2 t₁ first)⟩

/-- A weaker condition is met where a stronger one is. -/
theorem Meets.imp {P Q : σ → α → Prop} (weaker : ∀ s a, P s a → Q s a) {s : σ} {as : List α}
    (meets : Meets step P s as) : Meets step Q s as := by
  induction as generalizing s with
  | nil => trivial
  | cons a as ih => exact ⟨weaker s a meets.1, fun s' hs => ih (meets.2 s' hs)⟩

/-- Two conditions that agree wherever an invariant of the steps holds are met by the same runs. -/
theorem meets_congr (Inv : σ → Prop) {P Q : σ → α → Prop}
    (keeps : ∀ s a s', Inv s → step s a = some s' → Inv s')
    (agree : ∀ s a, Inv s → (P s a ↔ Q s a)) {s : σ} (start : Inv s) (as : List α) :
    Meets step P s as ↔ Meets step Q s as := by
  induction as generalizing s with
  | nil => exact Iff.rfl
  | cons a as ih =>
    apply and_congr (agree s a start)
    apply forall_congr'
    intro s'
    apply imp_congr_right
    intro hs
    exact ih (keeps s a s' start hs)

/-- A condition on the actions alone is met by a run of such actions. -/
theorem meets_of_forall {P : α → Prop} (s : σ) {as : List α} (allowed : ∀ a ∈ as, P a) :
    Meets step (fun _ a => P a) s as := by
  induction as generalizing s with
  | nil => trivial
  | cons a as ih =>
    exact ⟨allowed a List.mem_cons_self,
      fun s' _ => ih s' (fun b hb => allowed b (List.mem_cons_of_mem _ hb))⟩

/-- **The rule for the first lapse**: where a step that does not meet `P` leads into `Q`, and the
allowed actions stay in `Q`, a run of allowed actions meets `P` throughout or ends in `Q`. -/
theorem meets_or_ends (Inv Q : σ → Prop) {P : σ → α → Prop} {A : α → Prop}
    (keeps : ∀ s a s', Inv s → step s a = some s' → Inv s')
    (lapses : ∀ s a s', Inv s → ¬ P s a → step s a = some s' → Q s')
    (stays : ∀ s a s', A a → Q s → step s a = some s' → Q s')
    {s t : σ} {as : List α} (start : Inv s) (allowed : ∀ a ∈ as, A a)
    (h : run step s as = some t) : Meets step P s as ∨ Q t := by
  induction as generalizing s with
  | nil => exact .inl trivial
  | cons a as ih =>
    obtain ⟨s', hs, ht⟩ := run_cons_some h
    have rest : ∀ b ∈ as, A b := fun b hb => allowed b (List.mem_cons_of_mem _ hb)
    by_cases met : P s a
    · exact (ih (keeps s a s' start hs) rest ht).imp_left fun later =>
        (meets_cons_iff hs).mpr ⟨met, later⟩
    · exact .inr (run_keeps_of_meets Q (fun s a s' q allowed hs => stays s a s' allowed q hs)
        (lapses s a s' start met hs) (meets_of_forall s' rest) ht)

/-- The refinement rule for a condition on the actions alone. -/
theorem run_refines {R : σ → τ → Prop} {abstract : τ → α → τ} {P : α → Prop}
    (follows : ∀ s c a, P a → R s c → ∃ s', step s a = some s' ∧ R s' (abstract c a))
    {s : σ} {c : τ} (start : R s c) {as : List α} (allowed : ∀ a ∈ as, P a) :
    ∃ t, run step s as = some t ∧ R t (as.foldl abstract c) :=
  run_refines_of_meets follows start (meets_of_forall s allowed)

end Machine
