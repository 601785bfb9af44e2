import Mathlib.Data.List.Basic
import Mathlib.Data.Option.Basic

/-!
# Handles

An interface gives out handles and takes them back in its calls. A trace of calls is disciplined
where no call is given a handle that an earlier call released, a second release included.
-/

namespace Handle

variable {α H : Type}

/-- How a call touches handles: the one it is given, and the one it releases. -/
structure Api (α H : Type) where
  given : α → Option H
  released : α → Option H

/-- `later` does not touch what `earlier` released. -/
def Api.Apart (api : Api α H) (earlier later : α) : Prop :=
  ∀ h ∈ api.released earlier, h ∉ api.given later

/-- No call is given a handle that an earlier call released. -/
def Api.Disciplined (api : Api α H) (trace : List α) : Prop := trace.Pairwise api.Apart

instance [DecidableEq H] (api : Api α H) : DecidableRel api.Apart := fun earlier later =>
  inferInstanceAs (Decidable (∀ h ∈ api.released earlier, h ∉ api.given later))

instance [DecidableEq H] (api : Api α H) (trace : List α) : Decidable (api.Disciplined trace) :=
  inferInstanceAs (Decidable (trace.Pairwise api.Apart))

variable {api : Api α H}

/-- Calls that release nothing can be left off the front. -/
theorem disciplined_append_iff {before after : List α} (none : ∀ c ∈ before, api.released c = none) :
    api.Disciplined (before ++ after) ↔ api.Disciplined after := by
  have apart : ∀ c ∈ before, ∀ d, api.Apart c d := by
    intro c mem d h released
    rw [none c mem] at released
    cases released
  refine ⟨fun h => (List.pairwise_append.mp h).2.1, fun h => List.pairwise_append.mpr ⟨?_, h, ?_⟩⟩
  · exact List.Pairwise.imp_of_mem (fun mem _ _ => apart _ mem _)
      (List.pairwise_of_forall (R := fun _ _ => True) fun _ _ => trivial)
  · exact fun c mem d _ => apart c mem d

/-- Where all that comes after a release is given the handle, nothing may come. -/
theorem disciplined_release_iff {c : α} {h : H} {after : List α} (released : api.released c = some h)
    (given : ∀ d ∈ after, api.given d = some h) : api.Disciplined (c :: after) ↔ after = [] := by
  constructor
  · intro disciplined
    apply List.eq_nil_iff_forall_not_mem.mpr
    intro d mem
    exact (List.pairwise_cons.mp disciplined).1 d mem h released (given d mem)
  · rintro rfl
    exact List.pairwise_singleton _ _

end Handle
