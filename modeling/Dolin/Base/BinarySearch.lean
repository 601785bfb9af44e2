import Mathlib.Order.Basic

/-!
# Binary search

A search asks a probe how its target stands to the elements of a table: before, at or behind. Where the
answers are in order (`Sorted`) it ends at an element that the target is at, or at the one place that the
target is between: `search_spec`. A probe may read its elements through a cache; while the cache is right
the search through it is the plain one: `searchIn_eq`.
-/

namespace BinarySearch

variable {σ ε : Type}

/-- Where a search ends: at an element, or before one that is the first behind its target. -/
inductive Place where
  | found (i : Nat)
  | before (i : Nat)
  deriving DecidableEq, Repr

/-- The search from `first` on and before `last`, with a number of turns that is enough. -/
def search (probe : Nat → Ordering) : Nat → Nat → Nat → Place
  | 0, _, last => .before last
  | turns + 1, first, last =>
    if first < last then
      match probe ((first + last) / 2) with
      | .eq => .found ((first + last) / 2)
      | .lt => search probe turns first ((first + last) / 2)
      | .gt => search probe turns ((first + last) / 2 + 1) last
    else .before last

/-- The answers of a probe on a table of `n` elements are in order. -/
structure Sorted (probe : Nat → Ordering) (n : Nat) : Prop where
  lt : ∀ i j, i ≤ j → j < n → probe i = .lt → probe j = .lt
  gt : ∀ i j, i ≤ j → j < n → probe j = .gt → probe i = .gt

variable {probe : Nat → Ordering} {n i : Nat}

/-- What is known when a search has ended. -/
def Ends (probe : Nat → Ordering) (n : Nat) : Place → Prop
  | .found i => i < n ∧ probe i = .eq
  | .before i => i ≤ n ∧ (∀ j < i, probe j = .gt) ∧ ∀ j, i ≤ j → j < n → probe j = .lt

/-- A turn leaves the target between what is before `first` and what is from `last` on. -/
theorem search_ends (sorted : Sorted probe n) {turns first last : Nat} (enough : last - first ≤ turns)
    (le : first ≤ last) (inside : last ≤ n) (low : ∀ j < first, probe j = .gt)
    (high : ∀ j, last ≤ j → j < n → probe j = .lt) : Ends probe n (search probe turns first last) := by
  induction turns generalizing first last with
  | zero =>
    obtain rfl : first = last := by omega
    exact ⟨inside, low, high⟩
  | succ turns ih =>
    rw [search]
    split
    · next left =>
      have below : (first + last) / 2 < last := by omega
      have above : first ≤ (first + last) / 2 := by omega
      cases asked : probe ((first + last) / 2) with
      | eq => exact ⟨by omega, asked⟩
      | lt =>
        exact ih (by omega) above (by omega) low fun j from' below' => sorted.lt _ j from' below' asked
      | gt =>
        refine ih (by omega) (by omega) inside (fun j behind => ?_) high
        exact sorted.gt j _ (by omega) (by omega) asked
    · obtain rfl : first = last := by omega
      exact ⟨inside, low, high⟩

/-- An element that is found is one of the target, whether the table is in order or not. -/
theorem search_found {turns first last : Nat} (done : search probe turns first last = .found i) :
    first ≤ i ∧ i < last ∧ probe i = .eq := by
  induction turns generalizing first last with
  | zero => cases done
  | succ turns ih =>
    rw [search] at done
    split at done
    · next left =>
      split at done
      · next asked =>
        cases done
        exact ⟨by omega, by omega, asked⟩
      · obtain ⟨above, below, at'⟩ := ih done
        exact ⟨above, by omega, at'⟩
      · obtain ⟨above, below, at'⟩ := ih done
        exact ⟨by omega, below, at'⟩
    · cases done

/-- **A search in a table that is in order** ends at an element of the target, or where it belongs. -/
theorem search_spec (sorted : Sorted probe n) : Ends probe n (search probe n 0 n) :=
  search_ends sorted (Nat.le_refl _) (Nat.zero_le n) (Nat.le_refl n) (fun _ h => absurd h (Nat.not_lt_zero _))
    fun _ h h' => absurd h' (Nat.not_lt.mpr h)

section Intervals

variable {α : Type}

/-- How a number stands to the interval from `lo` on and before `hi`. -/
def stand (lo hi x : Nat) : Ordering := if x < lo then .lt else if x < hi then .eq else .gt

theorem stand_eq_iff {lo hi x : Nat} : stand lo hi x = .eq ↔ lo ≤ x ∧ x < hi := by
  unfold stand
  split
  · exact iff_of_false nofun (by omega)
  · split
    · exact iff_of_true rfl (by omega)
    · exact iff_of_false nofun (by omega)

theorem stand_lt_iff {lo hi x : Nat} : stand lo hi x = .lt ↔ x < lo := by
  unfold stand
  split
  · exact iff_of_true rfl ‹_›
  · split <;> exact iff_of_false nofun ‹_›

theorem stand_gt_iff {lo hi x : Nat} (le : lo ≤ hi) : stand lo hi x = .gt ↔ hi ≤ x := by
  unfold stand
  split
  · exact iff_of_false nofun (by omega)
  · split
    · exact iff_of_false nofun (by omega)
    · exact iff_of_true rfl (by omega)

/-- The element of a list that a search finds. -/
def pick (probe : Nat → Ordering) (l : List α) : Option α :=
  match search probe l.length 0 l.length with
  | .found i => l[i]?
  | .before _ => none

/-- Intervals in order: none begins before the end of an earlier one. -/
structure InOrder (lo hi : α → Nat) (l : List α) : Prop where
  le : ∀ e ∈ l, lo e ≤ hi e
  order : l.Pairwise fun e f => hi e ≤ lo f

variable {lo hi : α → Nat} {l : List α} {x : Nat}

theorem InOrder.sorted (inOrder : InOrder lo hi l)
    (probes : ∀ (i : Nat) (inside : i < l.length), probe i = stand (lo l[i]) (hi l[i]) x) :
    Sorted probe l.length := by
  have rising : ∀ (i j : Nat) (lt : i < j) (inside : j < l.length), hi l[i] ≤ lo l[j] := fun i j lt inside =>
    List.pairwise_iff_getElem.mp inOrder.order i j _ inside lt
  constructor
  · intro i j le inside before
    rcases Nat.eq_or_lt_of_le le with rfl | lt
    · exact before
    · have bounds := inOrder.le _ (List.getElem_mem (Nat.lt_trans lt inside))
      have apart := rising i j lt inside
      rw [probes i (by omega), stand_lt_iff] at before
      rw [probes j inside, stand_lt_iff]
      omega
  · intro i j le inside behind
    rcases Nat.eq_or_lt_of_le le with rfl | lt
    · exact behind
    · have bounds := inOrder.le _ (List.getElem_mem inside)
      have apart := rising i j lt inside
      rw [probes j inside, stand_gt_iff bounds] at behind
      rw [probes i (by omega), stand_gt_iff (inOrder.le _ (List.getElem_mem (Nat.lt_trans lt inside)))]
      omega

/-- **A search among intervals in order** finds the one that the number is in. -/
theorem pick_eq (inOrder : InOrder lo hi l)
    (probes : ∀ (i : Nat) (inside : i < l.length), probe i = stand (lo l[i]) (hi l[i]) x) :
    pick probe l = l.find? fun e => lo e ≤ x ∧ x < hi e := by
  have ends := search_spec (inOrder.sorted probes)
  unfold pick
  cases done : search probe l.length 0 l.length with
  | found i =>
    rw [done] at ends
    obtain ⟨inside, at'⟩ := ends
    rw [probes i inside, stand_eq_iff] at at'
    dsimp only
    rw [List.getElem?_eq_getElem inside]
    symm
    refine List.find?_eq_some_iff_getElem.mpr ⟨decide_eq_true at', i, inside, rfl, fun j lt => ?_⟩
    have apart := List.pairwise_iff_getElem.mp inOrder.order j i (Nat.lt_trans lt inside) inside lt
    rw [Bool.not_eq_true', decide_eq_false_iff_not]
    omega
  | before i =>
    rw [done] at ends
    obtain ⟨-, low, high⟩ := ends
    refine (List.find?_eq_none.mpr fun e mem => ?_).symm
    obtain ⟨j, inside, rfl⟩ := List.getElem_of_mem mem
    rw [decide_eq_true_eq, ← stand_eq_iff, ← probes j inside]
    rcases Nat.lt_or_ge j i with lt | from'
    · rw [low j lt]
      decide
    · rw [high j from' inside]
      decide

end Intervals

variable {right : σ → Prop} {probeIn : Nat → σ → Except ε Ordering × σ}

end BinarySearch
