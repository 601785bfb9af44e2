import Mathlib.Data.List.Basic
import Mathlib.Logic.Function.Basic

/-!
# Slots that are taken over and given back

A table holds one value in each slot. `takeOver` puts a value into a list of slots and saves what was
there; `giveBack` goes over a list of slots and puts back the saved values that carry a mark. The
table comes back whole exactly where every value that was taken over carries the mark
(`giveBack_takeOver_iff`).
-/

namespace Slots

variable {κ β : Type} [DecidableEq κ]

/-- Put `new` into the slots, one after the other, and save what each held. -/
def takeOver (new : β) : List κ → (κ → β) → (κ → β) → (κ → β) × (κ → β)
  | [], table, saved => (table, saved)
  | k :: ks, table, saved =>
    takeOver new ks (Function.update table k new) (Function.update saved k (table k))

/-- Go over the slots, and put back the saved values that carry the mark. -/
def giveBack (marked : β → Bool) (saved : κ → β) : List κ → (κ → β) → (κ → β)
  | [], table => table
  | k :: ks, table =>
    giveBack marked saved ks (if marked (saved k) then Function.update table k (saved k) else table)

theorem takeOver_table (new : β) (ks : List κ) (table saved : κ → β) (k : κ) :
    (takeOver new ks table saved).1 k = if k ∈ ks then new else table k := by
  induction ks generalizing table saved with
  | nil => rfl
  | cons j ks ih =>
    rw [takeOver, ih, Function.update_apply]
    by_cases eq : k = j <;> by_cases mem : k ∈ ks <;> simp [eq, mem]

/-- Where no slot comes twice, each saved value is the one the table held at first. -/
theorem takeOver_saved (new : β) {ks : List κ} (distinct : ks.Nodup) (table saved : κ → β) (k : κ) :
    (takeOver new ks table saved).2 k = if k ∈ ks then table k else saved k := by
  induction ks generalizing table saved with
  | nil => rfl
  | cons j ks ih =>
    obtain ⟨new', rest⟩ := List.nodup_cons.mp distinct
    rw [takeOver, ih rest]
    by_cases eq : k = j
    · subst eq
      rw [if_neg new', if_pos List.mem_cons_self, Function.update_self]
    · rw [Function.update_of_ne eq, Function.update_of_ne eq]
      simp only [List.mem_cons, eq, false_or]

theorem giveBack_apply (marked : β → Bool) (saved : κ → β) (ks : List κ) (table : κ → β) (k : κ) :
    giveBack marked saved ks table k =
      if k ∈ ks ∧ marked (saved k) = true then saved k else table k := by
  induction ks generalizing table with
  | nil => simp [giveBack]
  | cons j ks ih =>
    rw [giveBack, ih]
    by_cases eq : k = j
    · subst eq
      by_cases mark : marked (saved k) = true <;> simp [mark]
    · by_cases mark : marked (saved j) = true <;> simp [mark, eq, Function.update_of_ne]

/-- **The table comes back** exactly where every value that was taken over carries the mark: the
slots that were not taken over hold unmarked saved values, and those given back cover the others. -/
theorem giveBack_takeOver_iff {marked : β → Bool} {new : β} {ks all : List κ}
    {table saved : κ → β} (distinct : ks.Nodup) (covered : ∀ k ∈ ks, k ∈ all)
    (unmarked : ∀ k, k ∉ ks → marked (saved k) = false) (foreign : marked new = true) :
    giveBack marked (takeOver new ks table saved).2 all (takeOver new ks table saved).1 = table ↔
      ∀ k ∈ ks, marked (table k) = true := by
  have back : ∀ k, giveBack marked (takeOver new ks table saved).2 all
      (takeOver new ks table saved).1 k =
        if k ∈ ks ∧ marked (table k) = false then new else table k := by
    intro k
    rw [giveBack_apply, takeOver_table, takeOver_saved new distinct]
    by_cases mem : k ∈ ks
    · by_cases mark : marked (table k) = true <;> simp [mem, mark, covered k mem]
    · simp [mem, unmarked k mem]
  constructor
  · intro same k mem
    by_contra mark
    rw [Bool.not_eq_true] at mark
    have now := back k
    rw [same, if_pos ⟨mem, mark⟩] at now
    rw [now, foreign] at mark
    cases mark
  · intro marks
    funext k
    rw [back]
    split
    next h => rw [marks k h.1] at h; exact absurd h.2 nofun
    next => rfl

end Slots
