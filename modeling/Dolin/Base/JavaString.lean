import Mathlib.Algebra.Group.Nat.Defs
import Mathlib.Algebra.Ring.Int.Defs
import Mathlib.Data.List.Basic

/-!
# Java strings

A string is the list of its UTF-16 code units, as many as an `int` counts. `substring` throws where its
two arguments do not name a part of the string; `StringBuffer.delete` takes a part out.
-/

/-- The code units of a text. -/
abbrev Utf16 := List UInt16

/-- The code units of a text of ASCII characters. -/
def utf16 (text : List Char) : Utf16 := text.map fun c => UInt16.ofNat c.toNat

/-- `String`. -/
structure JavaString where
  units : Utf16
  length_lt : units.length < 2 ^ 31

namespace JavaString

/-- `length()`. -/
def length (s : JavaString) : Int32 := Int32.ofNat s.units.length

/-- `substring(start, end)`, or nothing where it throws. -/
def substring (s : JavaString) (start stop : Int32) : Option Utf16 :=
  if 0 ≤ start.toInt ∧ start.toInt ≤ stop.toInt ∧ stop.toInt ≤ s.units.length then
    some ((s.units.drop start.toInt.toNat).take (stop.toInt - start.toInt).toNat)
  else none

@[simp] theorem toInt_length (s : JavaString) : s.length.toInt = s.units.length :=
  Int32.toInt_ofNat_of_lt s.length_lt

/-- A part of the string. -/
theorem substring_eq {s : JavaString} {start stop : Int32} {i j : Nat}
    (first : start.toInt = i) (last : stop.toInt = j) (ordered : i ≤ j)
    (inside : j ≤ s.units.length) :
    s.substring start stop = some ((s.units.drop i).take (j - i)) := by
  rw [substring, first, last, if_pos (by omega)]
  congr 2
  omega

/-- No part of a string ends below zero. -/
theorem substring_of_neg {s : JavaString} {stop : Int32} (start : Int32) (neg : stop.toInt < 0) :
    s.substring start stop = none := by
  rw [substring, if_neg (by omega)]

end JavaString

/-- `StringBuffer.delete(start, end)`, for places inside. -/
def deleteUnits (buffer : Utf16) (start stop : Nat) : Utf16 := buffer.take start ++ buffer.drop stop

/-- A buffer that is cut back to a length, where it is longer. -/
theorem delete_tail (buffer : Utf16) (n : Nat) :
    (if n < buffer.length then deleteUnits buffer n buffer.length else buffer) = buffer.take n := by
  by_cases longer : n < buffer.length
  · rw [if_pos longer, deleteUnits, List.drop_length, List.append_nil]
  · rw [if_neg longer, List.take_of_length_le (Nat.not_lt.mp longer)]
