import Mathlib.Data.List.Basic
import Mathlib.Tactic.Ring

/-!
# C integers and JNI strings on a 32-bit and a 64-bit ABI

Sizes are `size_t` values: natural numbers below `2 ^ bits`, with the wrap of unsigned arithmetic
written out. A signed argument becomes a `size_t` by two's complement.
-/

/-- The bytes `GetStringUTFChars` gives for a Java string. Modified UTF-8 has no zero byte, so
`strlen` is the length, and `GetStringUTFLength` answers it as a `jsize`. -/
structure JString where
  utf8 : List UInt8
  nul_free : 0 ∉ utf8
  length_lt : utf8.length < 2 ^ 31
  deriving DecidableEq

/-- `strlen` of the bytes. -/
def JString.length (s : JString) : Nat := s.utf8.length

theorem JString.strlen_lt (s : JString) : s.length < 2 ^ 31 := s.length_lt

/-- The two data models of the Android ABIs: `ilp32` for `armeabi-v7a` and `x86`, `lp64` for
`arm64-v8a` and `x86_64`. -/
inductive Abi where
  | ilp32
  | lp64
  deriving DecidableEq, Repr

namespace Abi

/-- `sizeof(size_t)`. -/
def sizeofSizeT : Abi → Nat
  | ilp32 => 4
  | lp64 => 8

/-- One past the largest `size_t`. -/
def modulus (abi : Abi) : Nat := 256 ^ abi.sizeofSizeT

/-- A sum or product taken as a `size_t`. -/
def wrap (abi : Abi) (n : Nat) : Nat := n % abi.modulus

/-- Unsigned subtraction `a - b` of `size_t` values. -/
def sub (abi : Abi) (a b : Nat) : Nat := (a + (abi.modulus - b % abi.modulus)) % abi.modulus

/-- A signed integer converted to `size_t`. -/
def ofInt (abi : Abi) (i : Int) : Nat := (i % abi.modulus).toNat

/-- The answer of `ftell` at the end of a file, taken as a `size_t`: -1 where the offset does not fit
`long`. -/
def ftell (abi : Abi) (size : Nat) : Nat := if size < abi.modulus / 2 then size else abi.modulus - 1

theorem sizeofSizeT_pos (abi : Abi) : 0 < abi.sizeofSizeT := by cases abi <;> decide

theorem two_pow_32_le_modulus (abi : Abi) : 2 ^ 32 ≤ abi.modulus := by cases abi <;> decide

theorem sizeofSizeT_le (abi : Abi) : abi.sizeofSizeT ≤ 8 := by cases abi <;> decide

theorem wrap_of_lt {abi : Abi} {n : Nat} (h : n < abi.modulus) : abi.wrap n = n :=
  Nat.mod_eq_of_lt h

theorem wrap_lt (abi : Abi) (n : Nat) : abi.wrap n < abi.modulus :=
  Nat.mod_lt _ (Nat.lt_of_lt_of_le (by decide) abi.two_pow_32_le_modulus)

/-- Where the difference is not negative, unsigned subtraction is subtraction. -/
theorem sub_of_le {abi : Abi} {a b : Nat} (ha : a < abi.modulus) (h : b ≤ a) :
    abi.sub a b = a - b := by
  unfold sub
  rw [Nat.mod_eq_of_lt (show b < abi.modulus by omega),
    show a + (abi.modulus - b) = (a - b) + abi.modulus by omega, Nat.add_mod_right,
    Nat.mod_eq_of_lt (by omega)]

theorem ofInt_lt (abi : Abi) (i : Int) : abi.ofInt i < abi.modulus := by
  have pos : (0 : Int) < abi.modulus := by
    have := abi.two_pow_32_le_modulus
    omega
  have := Int.emod_lt_of_pos i pos
  have := Int.emod_nonneg i (show (abi.modulus : Int) ≠ 0 by omega)
  unfold ofInt
  omega

/-- Against a limit that is a positive `int`, the answer of `ftell` is as good as the size. -/
theorem le_ftell_iff (abi : Abi) {limit : Nat} (size : Nat) (h : limit < 2 ^ 31) :
    limit ≤ abi.ftell size ↔ limit ≤ size := by
  have := abi.two_pow_32_le_modulus
  unfold ftell
  split
  · exact Iff.rfl
  · omega

/-- A signed integer that is not negative and fits is itself. -/
theorem ofInt_of_nonneg {abi : Abi} {i : Int} (nonneg : 0 ≤ i) (small : i < 2 ^ 32) :
    abi.ofInt i = i.toNat := by
  have := abi.two_pow_32_le_modulus
  rw [ofInt, Int.emod_eq_of_lt nonneg (by omega)]

end Abi
