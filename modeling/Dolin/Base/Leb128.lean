import Mathlib.Data.List.Basic
import Mathlib.Algebra.Ring.Int.Defs
import Mathlib.Tactic.Ring

/-!
# LEB128

A number stands in groups of seven bits, the lowest first, one group a byte. The high bit of a byte
says that another follows. Read as two's complement, the top bit of the last group is the sign.

Nothing asks for the fewest groups: a number has many encodings, padded with groups that say no more.
The laws are about groups, so they hold for every one of them; `unsigned` and `signed` give the
shortest.
-/

namespace Leb128

/-- The bytes of the groups: all but the last have the high bit. -/
def bytes : List Nat → List UInt8
  | [] => []
  | [g] => [UInt8.ofNat g]
  | g :: h :: gs => UInt8.ofNat (g + 128) :: bytes (h :: gs)

/-- The number that the groups stand for. -/
def value : List Nat → Nat
  | [] => 0
  | g :: gs => g + 128 * value gs

/-- What can stand in the groups of a number. -/
structure Groups (gs : List Nat) : Prop where
  nonempty : gs ≠ []
  small : ∀ g ∈ gs, g < 128

/-- Whether the last group has the sign bit. -/
def negative (gs : List Nat) : Prop := 64 ≤ gs.getLastD 0

instance (gs : List Nat) : Decidable (negative gs) := inferInstanceAs (Decidable (_ ≤ _))

/-- The number of the groups read as two's complement. -/
def signedValue (gs : List Nat) : Int :=
  if negative gs then value gs - 128 ^ gs.length else value gs

/-- The groups of `n`, at most `k + 1` of them. -/
def unsigned : Nat → Nat → List Nat
  | 0, n => [n]
  | k + 1, n => if n < 128 then [n] else n % 128 :: unsigned k (n / 128)

/-- The groups of the two's complement of `v`, at most `k + 1` of them. -/
def signed : Nat → Int → List Nat
  | 0, v => [(v % 128).toNat]
  | k + 1, v =>
    if -64 ≤ v ∧ v < 64 then [(v % 128).toNat] else (v % 128).toNat :: signed k (v / 128)

/-! ## Groups -/

theorem length_bytes (gs : List Nat) : (bytes gs).length = gs.length := by
  induction gs with
  | nil => rfl
  | cons g gs ih =>
    cases gs with
    | nil => rfl
    | cons h gs => exact congrArg Nat.succ ih

theorem value_lt {gs : List Nat} (small : ∀ g ∈ gs, g < 128) : value gs < 128 ^ gs.length := by
  induction gs with
  | nil => exact Nat.one_pos
  | cons g gs ih =>
    have here := small g List.mem_cons_self
    have rest := ih fun h mem => small h (List.mem_cons_of_mem _ mem)
    rw [value, List.length_cons, Nat.pow_succ]
    omega

theorem Groups.tail {g h : Nat} {gs : List Nat} (ok : Groups (g :: h :: gs)) : Groups (h :: gs) :=
  ⟨List.cons_ne_nil _ _, fun x mem => ok.small x (List.mem_cons_of_mem _ mem)⟩

theorem Groups.cons {g : Nat} {gs : List Nat} (here : g < 128) (rest : Groups gs) : Groups (g :: gs) :=
  ⟨List.cons_ne_nil _ _, fun x mem => (List.mem_cons.mp mem).elim (· ▸ here) (rest.small x)⟩

theorem Groups.singleton {g : Nat} (here : g < 128) : Groups [g] :=
  ⟨List.cons_ne_nil _ _, fun _ mem => List.mem_singleton.mp mem ▸ here⟩

theorem negative_cons {g : Nat} {gs : List Nat} (nonempty : gs ≠ []) :
    negative (g :: gs) ↔ negative gs := by
  obtain ⟨h, gs, rfl⟩ := List.exists_cons_of_ne_nil nonempty
  exact Iff.rfl

/-- A group in front of others counts for its own value. -/
theorem signedValue_cons {g : Nat} {gs : List Nat} (nonempty : gs ≠ []) :
    signedValue (g :: gs) = g + 128 * signedValue gs := by
  have pow : (128 : Int) ^ (g :: gs).length = 128 * 128 ^ gs.length := by
    rw [List.length_cons]; ring
  have front : (value (g :: gs) : Int) = g + 128 * value gs := by
    rw [value]; push_cast; rfl
  unfold signedValue
  by_cases neg : negative gs
  · rw [if_pos ((negative_cons nonempty).mpr neg), if_pos neg, pow, front]
    ring
  · rw [if_neg (mt (negative_cons nonempty).mp neg), if_neg neg, front]

/-- The range of a number of `k + 1` groups, and the group that tells its sign. -/
theorem signedValue_range {gs : List Nat} (ok : Groups gs) {k : Nat} (length : gs.length = k + 1) :
    -(64 * 128 ^ k) ≤ signedValue gs ∧ signedValue gs < 64 * 128 ^ k ∧
      (negative gs ↔ signedValue gs < 0) := by
  induction gs generalizing k with
  | nil => cases length
  | cons g gs ih =>
    have small := ok.small g List.mem_cons_self
    cases gs with
    | nil =>
      obtain rfl : k = 0 := by simpa using length
      have front : value [g] = g := Nat.add_zero g
      have last : negative [g] ↔ 64 ≤ g := Iff.rfl
      rw [last, signedValue, front, List.length_singleton, pow_one, pow_zero]
      split
      · next neg =>
        have := last.mp neg
        omega
      · next neg =>
        have := mt last.mpr neg
        omega
    | cons h gs =>
      obtain ⟨k, rfl⟩ : ∃ j, k = j + 1 := ⟨gs.length, by simpa using length.symm⟩
      obtain ⟨low, high, sign⟩ := ih ok.tail (Nat.succ.inj length)
      have pow : (128 : Int) ^ (k + 1) = 128 * 128 ^ k := by ring
      rw [negative_cons (List.cons_ne_nil _ _), signedValue_cons (List.cons_ne_nil _ _), pow, sign]
      omega

/-! ## Every number has groups -/

theorem groups_unsigned {k n : Nat} (fits : n < 128 ^ (k + 1)) : Groups (unsigned k n) := by
  induction k generalizing n with
  | zero => exact Groups.singleton fits
  | succ k ih =>
    rw [unsigned]
    split
    · next small => exact Groups.singleton small
    · refine Groups.cons (Nat.mod_lt _ (by decide)) (ih ?_)
      rw [Nat.pow_succ] at fits
      omega

theorem value_unsigned (k n : Nat) : value (unsigned k n) = n := by
  induction k generalizing n with
  | zero => rfl
  | succ k ih =>
    rw [unsigned]
    split
    · rfl
    · rw [value, ih]
      omega

theorem length_unsigned_le (k n : Nat) : (unsigned k n).length ≤ k + 1 := by
  induction k generalizing n with
  | zero => exact Nat.le_refl 1
  | succ k ih =>
    rw [unsigned]
    split
    · exact Nat.succ_le_succ (Nat.zero_le _)
    · exact Nat.succ_le_succ (ih _)

theorem signed_ne_nil (k : Nat) (v : Int) : signed k v ≠ [] := by
  cases k with
  | zero => exact List.cons_ne_nil _ _
  | succ k =>
    rw [signed]
    split <;> exact List.cons_ne_nil _ _

theorem groups_signed (k : Nat) (v : Int) : Groups (signed k v) := by
  have low (v : Int) : (v % 128).toNat < 128 := by omega
  induction k generalizing v with
  | zero => exact Groups.singleton (low v)
  | succ k ih =>
    rw [signed]
    split
    · exact Groups.singleton (low v)
    · exact Groups.cons (low v) (ih _)

theorem length_signed_le (k : Nat) (v : Int) : (signed k v).length ≤ k + 1 := by
  induction k generalizing v with
  | zero => exact Nat.le_refl 1
  | succ k ih =>
    rw [signed]
    split
    · exact Nat.succ_le_succ (Nat.zero_le _)
    · exact Nat.succ_le_succ (ih _)

/-- One group holds a number of seven bits. -/
theorem signedValue_singleton {v : Int} (low : -64 ≤ v) (high : v < 64) :
    signedValue [(v % 128).toNat] = v := by
  have front : value [(v % 128).toNat] = (v % 128).toNat := rfl
  have last : negative [(v % 128).toNat] ↔ 64 ≤ (v % 128).toNat := Iff.rfl
  rw [signedValue, front, List.length_singleton, pow_one]
  split
  · next neg =>
    have := last.mp neg
    omega
  · next neg =>
    have := mt last.mpr neg
    omega

theorem signedValue_signed {k : Nat} {v : Int} (low : -(64 * 128 ^ k) ≤ v) (high : v < 64 * 128 ^ k) :
    signedValue (signed k v) = v := by
  induction k generalizing v with
  | zero => exact signedValue_singleton (by simpa using low) (by simpa using high)
  | succ k ih =>
    rw [signed]
    split
    · next small => exact signedValue_singleton small.1 small.2
    · have pow : (128 : Int) ^ (k + 1) = 128 * 128 ^ k := by ring
      rw [pow] at low high
      rw [signedValue_cons (signed_ne_nil _ _), ih (by omega) (by omega)]
      omega

/-- A number that fits `k + 1` groups with its sign has no more. -/
theorem length_signed_of_fits {k j : Nat} {v : Int} (low : -(64 * 128 ^ k) ≤ v)
    (high : v < 64 * 128 ^ k) (more : k ≤ j) : (signed j v).length ≤ k + 1 := by
  induction k generalizing j v with
  | zero =>
    cases j with
    | zero => exact Nat.le_refl 1
    | succ j =>
      rw [signed, if_pos ⟨by simpa using low, by simpa using high⟩]
      exact Nat.le_refl 1
  | succ k ih =>
    cases j with
    | zero => cases more
    | succ j =>
      rw [signed]
      split
      · exact Nat.succ_le_succ (Nat.zero_le _)
      · have pow : (128 : Int) ^ (k + 1) = 128 * 128 ^ k := by ring
        rw [pow] at low high
        exact Nat.succ_le_succ (ih (by omega) (by omega) (Nat.le_of_succ_le_succ more))

end Leb128
