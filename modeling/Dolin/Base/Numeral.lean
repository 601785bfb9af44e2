import Mathlib.Data.Nat.Digits.Defs
import Mathlib.Data.UInt

/-!
# Numerals

Numbers written as bytes in a base up to 36, with a least number of digits, and read back from the front
of a text.
-/

namespace Numeral

/-- What a byte stands for as a digit of some base. -/
def value (c : UInt8) : Option Nat :=
  if 0x30 ≤ c ∧ c ≤ 0x39 then some (c.toNat - 0x30)
  else if 0x61 ≤ c ∧ c ≤ 0x7a then some (c.toNat - 0x61 + 10)
  else if 0x41 ≤ c ∧ c ≤ 0x5a then some (c.toNat - 0x41 + 10)
  else none

/-- A digit of a base. -/
def isDigit (base : Nat) (c : UInt8) : Bool := (value c).any (· < base)

/-- The number that digits stand for. -/
def number (base : Nat) (ds : List UInt8) : Nat := ds.foldl (fun n c => n * base + (value c).getD 0) 0

/-- The number at the front of a text, and what is behind it. -/
def magnitude (base : Nat) (text : List UInt8) : Option (Nat × List UInt8) :=
  match text.takeWhile (isDigit base) with
  | [] => none
  | d :: ds => some (number base (d :: ds), text.dropWhile (isDigit base))

/-- The byte of a digit. -/
def digit (d : Nat) : UInt8 := UInt8.ofNat (if d < 10 then 0x30 + d else 0x57 + d)

/-- A number in a base, with zeros in front up to a width. -/
def print (base width n : Nat) : List UInt8 :=
  List.replicate (width - (base.digits n).length) 0x30 ++ (base.digits n).reverse.map digit

/-- A text goes on with no digit of any base. -/
def Stops (rest : List UInt8) : Prop := ∀ c ∈ rest.head?, isDigit 36 c = false

variable {base width n : Nat} {rest : List UInt8}

theorem value_digit {d : Nat} (small : d < 36) : value (digit d) = some d := by
  have all : ∀ d < 36, value (digit d) = some d := by decide
  exact all d small

theorem isDigit_digit {d : Nat} (small : d < base) (le : base ≤ 36) : isDigit base (digit d) = true := by
  rw [isDigit, value_digit (Nat.lt_of_lt_of_le small le)]
  exact decide_eq_true small

theorem number_map_digit {ds : List Nat} (small : ∀ d ∈ ds, d < 36) :
    number base (ds.reverse.map digit) = Nat.ofDigits base ds := by
  rw [number, List.foldl_map, List.foldl_reverse]
  induction ds with
  | nil => rfl
  | cons d ds ih =>
    rw [List.foldr_cons, ih fun d mem => small d (List.mem_cons_of_mem _ mem),
      value_digit (small d List.mem_cons_self), Nat.ofDigits_cons]
    simp only [Option.getD_some]
    rw [Nat.mul_comm, Nat.add_comm]

theorem number_zeros (k : Nat) (ds : List UInt8) :
    number base (List.replicate k 0x30 ++ ds) = number base ds := by
  induction k with
  | zero => rfl
  | succ k ih =>
    rw [List.replicate_succ, List.cons_append, ← ih]
    change List.foldl _ (0 * base + 0) _ = List.foldl _ 0 _
    rw [Nat.zero_mul]

theorem number_print (two : 1 < base) (le : base ≤ 36) : number base (print base width n) = n := by
  rw [print, number_zeros, number_map_digit fun d mem => Nat.lt_of_lt_of_le (Nat.digits_lt_base two mem) le,
    Nat.ofDigits_digits]

/-- What is printed are digits. -/
theorem isDigit_of_mem_print (two : 1 < base) (le : base ≤ 36) {c : UInt8} (mem : c ∈ print base width n) :
    isDigit base c = true := by
  rcases List.mem_append.mp mem with mem | mem
  · rw [List.eq_of_mem_replicate mem]
    exact decide_eq_true (Nat.lt_of_succ_lt two)
  · obtain ⟨d, inside, rfl⟩ := List.mem_map.mp mem
    exact isDigit_digit (Nat.digits_lt_base two (List.mem_reverse.mp inside)) le

theorem print_ne_nil (positive : 0 < width) : print base width n ≠ [] := by
  intro nil
  obtain ⟨zeros, digits⟩ := List.append_eq_nil_iff.mp nil
  rw [List.map_eq_nil_iff, List.reverse_eq_nil_iff] at digits
  rw [digits, List.length_nil, Nat.sub_zero, List.replicate_eq_nil_iff] at zeros
  omega

theorem isDigit_mono {c : UInt8} (le : base ≤ 36) (none' : isDigit 36 c = false) : isDigit base c = false := by
  rw [isDigit] at none' ⊢
  cases held : value c with
  | none => rfl
  | some v =>
    rw [held, Option.any_some, decide_eq_false_iff_not] at none'
    exact decide_eq_false (by omega)

/-- **A printed number reads back**, up to what goes on with no digit. -/
theorem magnitude_print (two : 1 < base) (le : base ≤ 36) (positive : 0 < width) (stops : Stops rest) :
    magnitude base (print base width n ++ rest) = some (n, rest) := by
  have digits : ∀ c ∈ print base width n, isDigit base c = true := fun c => isDigit_of_mem_print two le
  have after : rest.takeWhile (isDigit base) = [] ∧ rest.dropWhile (isDigit base) = rest := by
    cases rest with
    | nil => exact ⟨rfl, rfl⟩
    | cons c rest =>
      have none' := isDigit_mono le (stops c rfl)
      rw [List.takeWhile_cons, List.dropWhile_cons, none']
      exact ⟨rfl, rfl⟩
  have taken : (print base width n ++ rest).takeWhile (isDigit base) = print base width n := by
    rw [List.takeWhile_append_of_pos digits, after.1, List.append_nil]
  have dropped : (print base width n ++ rest).dropWhile (isDigit base) = rest := by
    rw [List.dropWhile_append_of_pos digits, after.2]
  have read : number base (print base width n) = n := number_print two le
  unfold magnitude
  rw [taken, dropped]
  cases shown : print base width n with
  | nil => exact absurd shown (print_ne_nil positive)
  | cons d ds =>
    rw [shown] at read
    rw [← read]

end Numeral
