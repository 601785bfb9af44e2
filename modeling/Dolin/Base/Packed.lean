import Mathlib.Data.List.Basic

/-!
# Walks over packed records

Records of different lengths stand one behind the other in a buffer, and each tells its length. A walk
goes from record to record by these lengths. Where they are right it comes to every record, once and in
order, and ends; where one is zero it does not end. The walk is given a number of turns, and answers
`none` where they are not enough.
-/

namespace Packed

variable {α σ : Type}

/-- The walk from offset `i`. A step sees the buffer from its record on. -/
def walk (length : List α → Nat) (step : σ → List α → σ) (buf : List α) :
    Nat → Nat → σ → Option σ
  | 0, _, _ => none
  | turns + 1, i, s =>
    if i < buf.length then
      walk length step buf turns (i + length (buf.drop i)) (step s (buf.drop i))
    else some s

/-- **A walk over records** that tell their length acts on each of them, in order. -/
theorem walk_records {length : List α → Nat} {step act : σ → List α → σ} {rs : List (List α)}
    (nonempty : ∀ r ∈ rs, r ≠ []) (told : ∀ r ∈ rs, ∀ rest, length (r ++ rest) = r.length)
    (acts : ∀ r ∈ rs, ∀ rest s, step s (r ++ rest) = act s r) {turns : Nat}
    (enough : rs.length < turns) (first : List α) (s : σ) :
    walk length step (first ++ rs.flatten) turns first.length s = some (rs.foldl act s) := by
  induction rs generalizing turns first s with
  | nil =>
    cases turns with
    | zero => cases enough
    | succ turns =>
      rw [List.flatten_nil, List.append_nil, walk, if_neg (Nat.lt_irrefl _), List.foldl_nil]
  | cons r rs ih =>
    cases turns with
    | zero => cases enough
    | succ turns =>
      have here := nonempty r List.mem_cons_self
      have inside : first.length < (first ++ (r :: rs).flatten).length := by
        have := List.length_pos_of_ne_nil here
        rw [List.length_append, List.flatten_cons, List.length_append]
        omega
      rw [walk, if_pos inside, List.drop_left, List.flatten_cons, told r List.mem_cons_self,
        acts r List.mem_cons_self, ← List.append_assoc, ← List.length_append, List.foldl_cons]
      exact ih (fun q mem => nonempty q (List.mem_cons_of_mem _ mem))
        (fun q mem => told q (List.mem_cons_of_mem _ mem))
        (fun q mem => acts q (List.mem_cons_of_mem _ mem)) (Nat.lt_of_succ_lt_succ enough) _ _

/-- There are no more records than elements. -/
theorem length_le_flatten {rs : List (List α)} (nonempty : ∀ r ∈ rs, r ≠ []) :
    rs.length ≤ rs.flatten.length := by
  induction rs with
  | nil => exact Nat.le_refl 0
  | cons r rs ih =>
    have first := List.length_pos_of_ne_nil (nonempty r List.mem_cons_self)
    have rest := ih fun q mem => nonempty q (List.mem_cons_of_mem _ mem)
    rw [List.length_cons, List.flatten_cons, List.length_append]
    omega

end Packed
