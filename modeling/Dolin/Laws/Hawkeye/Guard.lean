import Dolin.Hawkeye.MmapGuard

/-!
# A report buffer that could not be made

The constructor fails in three ways and leaves two different guards. Without a file name or a file
`buffer_ptr` is null, which every method tests for. Where `mmap` fails it is `MAP_FAILED`, which is
not null: `IsOk` takes it for a mapping, and so do `Write` and `Flush`. `Flush` has a failure of its
own: it closes the file that it could not open.
-/

namespace Dolin.Hawkeye

open Region MmapGuard

/-- There is a mapping behind `buffer_ptr`. -/
def MmapGuard.Mapped (g : MmapGuard) : Prop := ∃ m, g.bufferPtr = .mapped m

/-- What the guard owes its caller at a call: `IsOk` says whether there is a mapping, `Write` touches
memory only where it does, no null pointer is closed, and a `Flush` that cannot open its file leaves
the contents alone. -/
structure GuardCall.Sound (g : MmapGuard) (c : GuardCall) : Prop where
  touches : ∀ content contentLen appendable, c = .write content contentLen appendable →
    (c.perform g).accesses ≠ [] → g.isOk = true
  closes : ∀ file ∈ (c.perform g).closed, file ≠ .null
  keeps : ∀ filename, c = .flush filename false → (c.perform g).guard.bytes = g.bytes

/-- The guard is sound through a list of calls: at each of them, and `IsOk` before and after. -/
def MmapGuard.Sound (g : MmapGuard) (calls : List GuardCall) : Prop :=
  (∀ before, before <+: calls → ((g.after before).isOk = true ↔ (g.after before).Mapped)) ∧
    ∀ before c after, calls = before ++ c :: after → c.Sound (g.after before)

/-- A `Flush` in the call finds its file. -/
def GuardCall.Opens : GuardCall → Prop
  | .write _ _ _ => True
  | .flush _ opens => opens = true

/-- `mmap` was called, and failed. -/
def MapFails (filename : Option Bytes) (opens maps : Bool) : Prop :=
  filename.isSome = true ∧ opens = true ∧ maps = false

theorem mapFails_iff (filename : Option Bytes) (capacity : Nat) (opens maps : Bool) :
    (new filename capacity opens maps).bufferPtr = .mapFailed ↔ MapFails filename opens maps := by
  cases filename <;> cases opens <;> cases maps <;> simp [new, MapFails]

theorem isOk_iff_mapped (g : MmapGuard) :
    (g.isOk = true ↔ g.Mapped) ↔ g.bufferPtr ≠ .mapFailed := by
  obtain ⟨ptr⟩ := g
  cases ptr <;> simp [isOk, Mapped]

/-- No call makes `buffer_ptr` bad or good. -/
theorem GuardCall.perform_mapFailed (g : MmapGuard) (c : GuardCall) :
    (c.perform g).guard.bufferPtr = .mapFailed ↔ g.bufferPtr = .mapFailed := by
  cases c with
  | flush filename opens => exact Iff.rfl
  | write content contentLen appendable =>
    cases content with
    | none => exact Iff.rfl
    | some content =>
      obtain ⟨ptr⟩ := g
      cases ptr <;> cases appendable <;> simp [perform, writeWith]

theorem MmapGuard.after_mapFailed (g : MmapGuard) (calls : List GuardCall) :
    (g.after calls).bufferPtr = .mapFailed ↔ g.bufferPtr = .mapFailed := by
  induction calls generalizing g with
  | nil => exact Iff.rfl
  | cons c calls ih => exact (ih _).trans (c.perform_mapFailed g)

/-- A call is sound exactly where its `Flush`, if it is one, finds its file. -/
theorem GuardCall.sound_iff_opens (g : MmapGuard) (c : GuardCall) : c.Sound g ↔ c.Opens := by
  constructor
  · intro sound
    cases c with
    | write content contentLen appendable => trivial
    | flush filename opens =>
      cases opens with
      | true => rfl
      | false => exact absurd rfl (sound.closes .null List.mem_cons_self)
  · intro found
    refine ⟨?_, ?_, ?_⟩
    · rintro content contentLen appendable rfl touched
      cases content with
      | none => exact absurd rfl touched
      | some content =>
        -- a null pointer is not followed
        obtain ⟨ptr⟩ := g
        cases ptr with
        | null => exact absurd rfl touched
        | mapFailed => rfl
        | mapped m => simp [isOk]
    · intro file mem
      cases c with
      | write content contentLen appendable => cases content <;> cases mem
      | flush filename opens =>
        cases found
        rw [List.mem_singleton.mp mem]
        exact FilePtr.noConfusion
    · rintro filename rfl
      rfl

/-- A `Flush` comes back from a good pointer with a file that opens, and from nothing else. -/
theorem MmapGuard.flush_eq_none_iff (g : MmapGuard) (filename : Bytes) (opens : Bool)
    (files : Files) :
    g.flush filename opens files = none ↔
      .null ∈ ((GuardCall.flush filename opens).perform g).closed ∨ g.bufferPtr = .mapFailed := by
  obtain ⟨ptr⟩ := g
  cases opens with
  | false => simp [MmapGuard.flush, GuardCall.perform]
  | true => cases ptr <;> simp [MmapGuard.flush, GuardCall.perform]

/-- **A guard after any construction.** Whatever the constructor met and for every list of calls with
any outcomes of `fopen`: `IsOk` is true exactly where there is a mapping, `Write` touches memory only
then, `fclose` gets no null pointer and a `Flush` without a file changes nothing, if and only if the
constructor's `mmap` did not fail and every `Flush` opens its file. -/
theorem guard_sound_iff (filename : Option Bytes) (capacity : Nat) (opens maps : Bool)
    (calls : List GuardCall) :
    (new filename capacity opens maps).Sound calls ↔
      ¬ MapFails filename opens maps ∧ ∀ c ∈ calls, c.Opens := by
  rw [← mapFails_iff filename capacity]
  generalize new filename capacity opens maps = g
  constructor
  · rintro ⟨ok, sound⟩
    refine ⟨(isOk_iff_mapped g).mp (ok [] List.nil_prefix), ?_⟩
    intro c mem
    obtain ⟨before, after, eq⟩ := List.append_of_mem mem
    exact (c.sound_iff_opens _).mp (sound before c after eq)
  · rintro ⟨good, found⟩
    constructor
    · intro before _
      rw [isOk_iff_mapped, ne_eq, g.after_mapFailed]
      exact good
    · rintro before c after rfl
      exact (c.sound_iff_opens _).mpr (found c (List.mem_append_right _ List.mem_cons_self))

/-- `mmap` fails: `IsOk` is true of nothing, and `Write` reads at `MAP_FAILED`. `fopen` fails: null is
closed. -/
theorem failures_unsound :
    (new (some []) 0 true false).isOk = true ∧ ¬ (new (some []) 0 true false).Mapped ∧
      ((GuardCall.write (some [0x61]) 1 true).perform (new (some []) 0 true false)).accesses =
        [⟨0, 1⟩] ∧
      ((GuardCall.flush [] false).perform (new none 0 true true)).closed = [.null] ∧
      ¬ (new (some []) 0 true false).Sound [] ∧
      ¬ (new none 0 true true).Sound [.flush [] false] := by
  refine ⟨rfl, ?_, rfl, rfl, ?_, ?_⟩
  · rintro ⟨m, mapped⟩
    cases mapped
  · rintro ⟨ok, -⟩
    obtain ⟨m, mapped⟩ := (ok [] List.nil_prefix).mp rfl
    cases mapped
  · rintro ⟨-, sound⟩
    exact (sound [] _ [] rfl).closes .null List.mem_cons_self rfl

end Dolin.Hawkeye
