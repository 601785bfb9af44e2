import Mathlib.Data.List.Basic

/-!
# A cache of answers that hold in a range

A computation answers a query with a row: the answer, and a range of queries for which it is the same. The
rows are kept by the end of their range. A query first looks at the row that ends next behind it; only if
it lies before that row's range the computation is asked, and its row is kept, unless there is one with
the same end.

Where the ranges are right (`Uniform`), every query gets the answer that the computation gives, whatever was
asked before: the rows that are kept stay right (`query_right`).
-/

namespace RangeCache

variable {α ε : Type}

/-- An answer, with the range for which it holds. -/
structure Row (α : Type) where
  start : Nat
  stop : Nat
  answer : α

/-- The rows that are kept, in the order of their ends. -/
abbrev Cache (α : Type) := List (Row α)

/-- The row that ends next behind `q` (`upper_bound`). -/
def upperBound (cache : Cache α) (q : Nat) : Option (Row α) := cache.find? fun row => decide (q < row.stop)

/-- A row kept, unless there is one with the same end; with the row that is then there (`emplace`). -/
def emplace (row : Row α) : Cache α → Cache α × Row α
  | [] => ([row], row)
  | e :: es =>
    if row.stop < e.stop then (row :: e :: es, row)
    else if row.stop = e.stop then (e :: es, e)
    else (e :: (emplace row es).1, (emplace row es).2)

/-- A query that finds no row for it. -/
def miss (compute : Nat → Except ε (Row α)) (cache : Cache α) (q : Nat) : Except ε α × Cache α :=
  match compute q with
  | .error err => (.error err, cache)
  | .ok row => (.ok (emplace row cache).2.answer, (emplace row cache).1)

/-- A query. -/
def query (compute : Nat → Except ε (Row α)) (cache : Cache α) (q : Nat) : Except ε α × Cache α :=
  match upperBound cache q with
  | none => miss compute cache q
  | some row => if q < row.start then miss compute cache q else (.ok row.answer, cache)

/-- The answer of the computation itself. -/
def fresh (compute : Nat → Except ε (Row α)) (q : Nat) : Except ε α := (compute q).map Row.answer

/-- The answer of a row is that of the computation in all of its range, which is not empty. -/
structure Row.Right (compute : Nat → Except ε (Row α)) (row : Row α) : Prop where
  nonempty : row.start < row.stop
  same : ∀ q, row.start ≤ q → q < row.stop → fresh compute q = .ok row.answer

/-- The computation gives rows that are right, and for the query. -/
def Uniform (compute : Nat → Except ε (Row α)) : Prop :=
  ∀ q row, compute q = .ok row → row.start ≤ q ∧ q < row.stop ∧ row.Right compute

variable {compute : Nat → Except ε (Row α)} {cache : Cache α} {row : Row α}

theorem mem_emplace {e : Row α} (mem : e ∈ (emplace row cache).1) : e = row ∨ e ∈ cache := by
  induction cache with
  | nil => exact .inl (List.mem_singleton.mp mem)
  | cons f fs ih =>
    rw [emplace] at mem
    split at mem
    · exact List.mem_cons.mp mem
    split at mem
    · exact .inr mem
    · rcases List.mem_cons.mp mem with rfl | mem
      · exact .inr List.mem_cons_self
      · exact (ih mem).imp_right (List.mem_cons_of_mem _)

/-- What `emplace` finds is the row, or one with the same end. -/
theorem emplace_found (row : Row α) (cache : Cache α) :
    (emplace row cache).2 = row ∨
      (emplace row cache).2 ∈ cache ∧ (emplace row cache).2.stop = row.stop := by
  induction cache with
  | nil => exact .inl rfl
  | cons e es ih =>
    rw [emplace]
    split
    · exact .inl rfl
    split
    · next same => exact .inr ⟨List.mem_cons_self, same.symm⟩
    · exact ih.imp_right fun ⟨mem, same⟩ => ⟨List.mem_cons_of_mem _ mem, same⟩

/-- Two rows that are right and end together have the same answer. -/
theorem Row.Right.answer_eq {e : Row α} (he : e.Right compute) (hr : row.Right compute)
    (same : e.stop = row.stop) : e.answer = row.answer := by
  have lastE := he.same (e.stop - 1) (Nat.le_sub_one_of_lt he.nonempty) (by have := he.nonempty; omega)
  have lastR := hr.same (e.stop - 1) (by have := hr.nonempty; omega) (by have := hr.nonempty; omega)
  exact Except.ok.inj (lastE.symm.trans lastR)

/-- A query is answered as the computation answers it, and leaves rows that are right. -/
theorem query_right (uniform : Uniform compute) (right : ∀ e ∈ cache, e.Right compute) (q : Nat) :
    (query compute cache q).1 = fresh compute q ∧ ∀ e ∈ (query compute cache q).2, e.Right compute := by
  have missed : (miss compute cache q).1 = fresh compute q ∧
      ∀ e ∈ (miss compute cache q).2, e.Right compute := by
    unfold miss fresh
    cases asked : compute q with
    | error err => exact ⟨rfl, right⟩
    | ok row =>
      obtain ⟨-, -, rowRight⟩ := uniform q row asked
      constructor
      · change Except.ok (emplace row cache).2.answer = Except.ok row.answer
        rcases emplace_found row cache with found | ⟨mem, same⟩
        · rw [found]
        · rw [(right _ mem).answer_eq rowRight same]
      · intro e mem
        rcases mem_emplace mem with rfl | mem
        · exact rowRight
        · exact right e mem
  unfold query
  cases found : upperBound cache q with
  | none => exact missed
  | some e =>
    dsimp only
    split
    · exact missed
    · next inside =>
      have mem := List.mem_of_find?_eq_some found
      have before : q < e.stop := by simpa using List.find?_some found
      exact ⟨((right e mem).same q (Nat.not_lt.mp inside) before).symm, right⟩

end RangeCache
