import Mathlib.Data.List.Basic
import Mathlib.Logic.Function.Basic
import Dolin.Base.Region

/-!
# Files that grow by appends

The content of every file, and a ledger of the appends with the size each one found. Between two
appends a file does not change, so its size is the one it started with or the one an append of the
ledger left (`Traced`). A bound on what the appends find and carry is then a bound on the files.
-/

namespace Ledger

open Region

variable {κ : Type}

/-- An append: the file, the size it had, and the bytes. -/
structure Entry (κ : Type) where
  file : κ
  before : Nat
  bytes : Bytes
  deriving DecidableEq

structure State (κ : Type) where
  content : κ → Bytes
  entries : List (Entry κ) := []

/-- The files after an append. -/
def State.append [DecidableEq κ] (s : State κ) (file : κ) (bytes : Bytes) : State κ :=
  { content := Function.update s.content file (s.content file ++ bytes)
    entries := s.entries ++ [⟨file, (s.content file).length, bytes⟩] }

/-- Every file has its content of the start, or the size that an append left. -/
def Traced (start : κ → Bytes) (s : State κ) : Prop :=
  ∀ file, s.content file = start file ∨
    ∃ e ∈ s.entries, e.file = file ∧ (s.content file).length = e.before + e.bytes.length

theorem traced_start (start : κ → Bytes) : Traced start { content := start } := fun _ => .inl rfl

theorem Traced.append [DecidableEq κ] {start : κ → Bytes} {s : State κ} (h : Traced start s)
    (file : κ) (bytes : Bytes) : Traced start (s.append file bytes) := by
  intro other
  by_cases eq : other = file
  · subst eq
    refine .inr ⟨⟨other, (s.content other).length, bytes⟩,
      List.mem_append_right _ List.mem_cons_self, rfl, ?_⟩
    have content : (s.append other bytes).content other = s.content other ++ bytes :=
      Function.update_self ..
    rw [content, List.length_append]
  · have same : (s.append file bytes).content other = s.content other := Function.update_of_ne eq ..
    rw [same]
    refine (h other).imp_right ?_
    rintro ⟨e, mem, found⟩
    exact ⟨e, List.mem_append_left _ mem, found⟩

/-- **The size rule**: where every append finds less than `limit` and carries less than `most` bytes,
a file that starts below the sum of the two stays below it. -/
theorem Traced.length_lt {start : κ → Bytes} {s : State κ} (h : Traced start s) {limit most : Nat}
    (found : ∀ e ∈ s.entries, e.before < limit) (carried : ∀ e ∈ s.entries, e.bytes.length < most)
    {file : κ} (low : (start file).length < limit + most) :
    (s.content file).length < limit + most := by
  rcases h file with same | ⟨e, mem, -, size⟩
  · rw [same]
    exact low
  · have := found e mem
    have := carried e mem
    omega

end Ledger
