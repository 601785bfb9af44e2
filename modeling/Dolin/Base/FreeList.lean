import Mathlib.Data.List.Nodup
import Mathlib.Logic.Function.Basic

/-!
# Free lists and those who hold the rest

The objects that are free are linked to one another, and the list of them has every one once. An object
that is not free may be held, by one holder. Objects go from the front of the list to a holder and back
to the front, or a holder lets one go.
-/

namespace FreeList

variable {ι τ : Type}

/-- The links from `head` on lead through the elements of the list, to an end. -/
def Linked (next : ι → Option ι) : Option ι → List ι → Prop
  | none, [] => True
  | some i, j :: l => i = j ∧ Linked next (next i) l
  | _, _ => False

section Linked

variable {next next' : ι → Option ι} {head : Option ι} {l : List ι}

theorem Linked.congr (linked : Linked next head l) (same : ∀ i ∈ l, next' i = next i) :
    Linked next' head l := by
  induction l generalizing head with
  | nil =>
    cases head with
    | none => trivial
    | some => exact linked
  | cons j l ih =>
    cases head with
    | none => exact linked
    | some i =>
      obtain ⟨rfl, linked⟩ := linked
      refine ⟨rfl, ?_⟩
      rw [same i List.mem_cons_self]
      exact ih linked fun k mem => same k (List.mem_cons_of_mem i mem)

/-- The first object, and the list behind it. -/
theorem Linked.front {i : ι} (linked : Linked next (some i) l) :
    ∃ rest, l = i :: rest ∧ Linked next (next i) rest := by
  cases l with
  | nil => exact linked.elim
  | cons j rest =>
    obtain ⟨rfl, linked⟩ := linked
    exact ⟨rest, rfl, linked⟩

/-- Another object in front. -/
theorem Linked.push {i : ι} (linked : Linked next head l) (first : next' i = head)
    (same : ∀ j ∈ l, next' j = next j) : Linked next' (some i) (i :: l) := by
  refine ⟨rfl, ?_⟩
  rw [first]
  exact linked.congr same

end Linked

/-- Every object is in the free list once, or has one holder who holds it once, or neither. -/
structure Custody (held : τ → List ι) (free : List ι) : Prop where
  once : ∀ t, (held t).Nodup
  alone : ∀ t t' i, i ∈ held t → i ∈ held t' → t = t'
  nodup : free.Nodup
  apart : ∀ t, ∀ i ∈ held t, i ∉ free

namespace Custody

variable {held : τ → List ι} {free : List ι} {t : τ} {i : ι}

/-- Nobody holds anything. -/
theorem nobody : Custody (fun _ : τ => ([] : List ι)) [] where
  once := fun _ => List.nodup_nil
  alone := fun _ _ _ mem => absurd mem List.not_mem_nil
  nodup := List.nodup_nil
  apart := fun _ _ mem => absurd mem List.not_mem_nil

theorem tail (h : Custody held (i :: free)) : Custody held free where
  once := h.once
  alone := h.alone
  nodup := h.nodup.of_cons
  apart := fun t j mem free => h.apart t j mem (List.mem_cons_of_mem i free)

variable [DecidableEq τ]

/-- Someone takes an object that is neither free nor held. -/
theorem hold (h : Custody held free) (unheld : ∀ t, i ∉ held t) (unfree : i ∉ free) (t : τ) :
    Custody (Function.update held t (i :: held t)) free := by
  -- who holds an object now
  have holder : ∀ u j, j ∈ Function.update held t (i :: held t) u → (u = t ∧ j = i) ∨ j ∈ held u := by
    intro u j mem
    by_cases same : u = t
    · subst same
      rw [Function.update_self, List.mem_cons] at mem
      exact mem.imp_left fun eq => ⟨rfl, eq⟩
    · rw [Function.update_of_ne same] at mem
      exact .inr mem
  refine ⟨fun u => ?_, fun u u' j mem mem' => ?_, h.nodup, fun u j mem => ?_⟩
  · by_cases same : u = t
    · subst same
      rw [Function.update_self]
      exact List.nodup_cons.mpr ⟨unheld u, h.once u⟩
    · rw [Function.update_of_ne same]
      exact h.once u
  · rcases holder u j mem with ⟨rfl, rfl⟩ | old
    · rcases holder u' j mem' with ⟨rfl, -⟩ | old'
      · rfl
      · exact absurd old' (unheld u')
    · rcases holder u' j mem' with ⟨rfl, rfl⟩ | old'
      · exact absurd old (unheld u)
      · exact h.alone u u' j old old'
  · rcases holder u j mem with ⟨-, rfl⟩ | old
    · exact unfree
    · exact h.apart u j old

/-- Someone takes the first of the free objects. -/
theorem take (h : Custody held (i :: free)) (t : τ) :
    Custody (Function.update held t (i :: held t)) free :=
  h.tail.hold (fun t mem => h.apart t i mem List.mem_cons_self) (List.nodup_cons.mp h.nodup).1 t

variable [DecidableEq ι]

theorem mem_of_mem_erase {u : τ} {j : ι}
    (mem : j ∈ Function.update held t ((held t).erase i) u) : j ∈ held u := by
  by_cases same : u = t
  · subst same
    rw [Function.update_self] at mem
    exact List.mem_of_mem_erase mem
  · rw [Function.update_of_ne same] at mem
    exact mem

/-- A holder gives an object back. -/
theorem give (h : Custody held free) (mem : i ∈ held t) :
    Custody (Function.update held t ((held t).erase i)) (i :: free) := by
  refine ⟨fun u => ?_, fun u u' j left left' => ?_, ?_, fun u j left => ?_⟩
  · by_cases same : u = t
    · subst same
      rw [Function.update_self]
      exact (h.once u).erase i
    · rw [Function.update_of_ne same]
      exact h.once u
  · exact h.alone u u' j (mem_of_mem_erase left) (mem_of_mem_erase left')
  · exact List.nodup_cons.mpr ⟨h.apart t i mem, h.nodup⟩
  · rw [List.mem_cons, not_or]
    refine ⟨?_, h.apart u j (mem_of_mem_erase left)⟩
    rintro rfl
    have same := h.alone u t j (mem_of_mem_erase left) mem
    subst same
    rw [Function.update_self] at left
    exact (h.once u).not_mem_erase left

/-- Or lets it go. -/
theorem drop (h : Custody held free) (mem : i ∈ held t) :
    Custody (Function.update held t ((held t).erase i)) free := (h.give mem).tail

end Custody

end FreeList
