import Mathlib.Data.List.Lex
import Mathlib.Algebra.Group.Nat.Defs

/-!
# Decimal numerals of a fixed width

A number that is printed with leading zeros to a width it does not exceed has the numeral of that
width. Numerals of one width are ordered as their numbers, digit by digit from the front, in any
alphabet whose digits are.
-/

namespace Decimal

/-- The last `w` decimal digits of a number, highest first. -/
def digits : Nat → Nat → List Nat
  | 0, _ => []
  | w + 1, n => digits w (n / 10) ++ [n % 10]

theorem length_digits (w n : Nat) : (digits w n).length = w := by
  induction w generalizing n with
  | zero => rfl
  | succ w ih => rw [digits, List.length_append, ih, List.length_singleton]

theorem digits_lt {w n d : Nat} (mem : d ∈ digits w n) : d < 10 := by
  induction w generalizing n with
  | zero => cases mem
  | succ w ih =>
    rw [digits, List.mem_append, List.mem_singleton] at mem
    rcases mem with mem | rfl
    · exact ih mem
    · exact Nat.mod_lt _ (by omega)

theorem digits_zero (w : Nat) : digits w 0 = List.replicate w 0 := by
  induction w with
  | zero => rfl
  | succ w ih => rw [digits, Nat.zero_div, ih, Nat.zero_mod, ← List.replicate_succ']

/-- A number printed with leading zeros. -/
theorem pad_toDigits {w n : Nat} (fits : n < 10 ^ (w + 1)) :
    List.replicate (w + 1 - (Nat.toDigits 10 n).length) '0' ++ Nat.toDigits 10 n =
      (digits (w + 1) n).map Nat.digitChar := by
  induction w generalizing n with
  | zero =>
    have small : n < 10 := fits
    rw [Nat.toDigits_of_lt_base small, digits, digits, Nat.mod_eq_of_lt small]
    rfl
  | succ w ih =>
    by_cases small : n < 10
    · have zero : n / 10 = 0 := Nat.div_eq_of_lt small
      rw [Nat.toDigits_of_lt_base small, digits, zero, digits_zero, Nat.mod_eq_of_lt small,
        List.map_append, List.map_replicate]
      rfl
    · have rest : n / 10 < 10 ^ (w + 1) := by
        rw [Nat.pow_succ] at fits
        omega
      rw [Nat.toDigits_of_base_le (by omega) (by omega), digits, List.map_append, ← ih rest,
        List.length_append, List.length_singleton, Nat.add_sub_add_right, List.append_assoc]
      rfl

/-- Words of one length are in order where their first parts are. -/
theorem lex_append {α : Type} {r : α → α → Prop} {a b : List α} (lex : List.Lex r a b)
    (length : a.length = b.length) (x y : List α) : List.Lex r (a ++ x) (b ++ y) := by
  induction lex with
  | nil => cases length
  | rel less => exact .rel less
  | cons _ ih => exact .cons (ih (Nat.succ.inj length))

/-- A first part that two words share does not decide. -/
theorem lex_of_append_left {α : Type} {r : α → α → Prop} (irrefl : ∀ a, ¬ r a a) {first a b : List α}
    (lex : List.Lex r (first ++ a) (first ++ b)) : List.Lex r a b := by
  induction first with
  | nil => exact lex
  | cons c first ih =>
    cases lex with
    | rel less => exact absurd less (irrefl c)
    | cons rest => exact ih rest

/-- **Numerals are ordered as their numbers.** -/
theorem digits_lex {w m n : Nat} (less : m < n) (fits : n < 10 ^ w) :
    List.Lex (· < ·) (digits w m) (digits w n) := by
  induction w generalizing m n with
  | zero =>
    rw [Nat.pow_zero] at fits
    omega
  | succ w ih =>
    rw [digits, digits]
    by_cases same : m / 10 = n / 10
    · rw [same]
      exact List.Lex.append_left _ (.rel (by omega)) _
    · have rest : n / 10 < 10 ^ w := by
        rw [Nat.pow_succ] at fits
        omega
      exact lex_append (ih (by omega) rest) (by rw [length_digits, length_digits]) _ _

/-- In another alphabet. -/
theorem lex_map {α : Type} {r : α → α → Prop} {f : Nat → α}
    (mono : ∀ d e, d < e → e < 10 → r (f d) (f e)) {a b : List Nat} (lex : List.Lex (· < ·) a b)
    (small : ∀ d ∈ b, d < 10) : List.Lex r (a.map f) (b.map f) := by
  induction lex with
  | nil => exact .nil
  | rel less => exact .rel (mono _ _ less (small _ List.mem_cons_self))
  | cons _ ih => exact .cons (ih fun d mem => small d (List.mem_cons_of_mem _ mem))

end Decimal
