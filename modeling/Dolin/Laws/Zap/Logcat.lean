import Dolin.Zap.Logcat

/-!
# The parts of a message

`printInner` prints a message in parts that are the message again, one behind the other, each of at
most 4063 characters. It does so up to the greatest multiple of 4063 that an `int` holds: of a longer
message the end of the last part is taken beyond that, and is below zero.
-/

namespace Dolin.Zap

/-- The message is printed whole, in parts of the permitted length that are not empty, unless it is. -/
def PrintsWhole (level : Level) (tag : Utf16) (msg : JavaString) : Prop :=
  ∃ enough, ∀ turns, enough ≤ turns → ∃ parts : List Utf16,
    printInner turns level tag msg = some ⟨parts.map (doPrint level tag), false⟩ ∧
      parts.flatten = msg.units ∧ (∀ part ∈ parts, part.length ≤ 4063) ∧
      ∀ part ∈ parts, part = [] → msg.units = []

/-- The length of the longest message that is printed whole. -/
def longestPrinted : Nat := 4063 * 528546

variable {level : Level} {tag : Utf16} {msg : JavaString}

theorem lt_length_iff {a : Int32} : a < msg.length ↔ a.toInt < msg.units.length := by
  rw [Int32.lt_iff_toInt_lt, JavaString.toInt_length]

theorem length_le_iff {a : Int32} : msg.length ≤ a ↔ (msg.units.length : Int) ≤ a.toInt := by
  rw [Int32.le_iff_toInt_le, JavaString.toInt_length]

/-- The end of a part that starts at `start`. -/
def partEnd (msg : JavaString) (start : Int32) : Int32 :=
  if start + MAX_LENGTH_OF_SINGLE_MESSAGE ≤ msg.length then start + MAX_LENGTH_OF_SINGLE_MESSAGE
  else msg.length

theorem printLoop_of_lt {start stop : Int32} {part : Utf16} (more : start < msg.length)
    (cut : msg.substring start stop = some part) (turns : Nat) :
    printLoop level tag msg (turns + 1) start stop =
      (printLoop level tag msg turns stop (partEnd msg stop)).map fun printed =>
        { printed with lines := doPrint level tag part :: printed.lines } := by
  rw [printLoop, if_pos more, cut]
  rfl

/-- The end of a part is where it should be, where an `int` holds the sum. -/
theorem toInt_partEnd {start : Int32} {i : Nat} (first : start.toInt = i) (fits : i + 4063 < 2 ^ 31) :
    (partEnd msg start).toInt = (min (i + 4063) msg.units.length : Nat) := by
  have sum : (start + MAX_LENGTH_OF_SINGLE_MESSAGE).toInt = i + 4063 := by
    rw [Int32.toInt_add, first]
    exact Int.bmod_eq_of_le (by change -_ ≤ (i : Int) + 4063; omega) (by change (i : Int) + 4063 < _; omega)
  unfold partEnd
  split
  next le =>
    rw [Int32.le_iff_toInt_le, sum, JavaString.toInt_length] at le
    rw [sum]
    omega
  next gt =>
    rw [Int32.le_iff_toInt_le, sum, JavaString.toInt_length] at gt
    rw [JavaString.toInt_length]
    omega

/-- Where an `int` does not hold the sum, the end is below zero. -/
theorem partEnd_neg {start : Int32} {i : Nat} (first : start.toInt = i) (small : i < 2 ^ 31)
    (wide : 2 ^ 31 ≤ i + 4063) : (partEnd msg start).toInt < 0 := by
  have sum : (start + MAX_LENGTH_OF_SINGLE_MESSAGE).toInt = i + 4063 - 2 ^ 32 := by
    rw [Int32.toInt_add, first]
    change ((i : Int) + 4063).bmod (2 ^ 32) = _
    rw [Int.bmod_def]
    split <;> omega
  have le : start + MAX_LENGTH_OF_SINGLE_MESSAGE ≤ msg.length := by
    rw [Int32.le_iff_toInt_le, sum, JavaString.toInt_length]
    omega
  rw [partEnd, if_pos le, sum]
  omega

/-- With so many turns, the loop prints the message from a place on. -/
def PrintsRest (level : Level) (tag : Utf16) (msg : JavaString) (turns : Nat) (start stop : Int32)
    (i : Nat) : Prop :=
  ∃ parts : List Utf16,
    printLoop level tag msg turns start stop = some ⟨parts.map (doPrint level tag), false⟩ ∧
      parts.flatten = msg.units.drop i ∧ ∀ part ∈ parts, part.length ≤ 4063 ∧ part ≠ []

/-- At the end of the message there is nothing to print. -/
theorem printsRest_of_end {start stop : Int32} {i : Nat} (first : start.toInt = i)
    (done : msg.units.length ≤ i) (turns : Nat) :
    PrintsRest level tag msg (turns + 1) start stop i := by
  have ended : ¬ start < msg.length := by
    rw [lt_length_iff, first]
    omega
  refine ⟨[], ?_, ?_, fun part mem => absurd mem List.not_mem_nil⟩
  · rw [printLoop, if_neg ended, List.map_nil]
  · rw [List.drop_of_length_le done, List.flatten_nil]

/-- One turn of the loop. -/
theorem PrintsRest.turn {turns : Nat} {start stop : Int32} {i j : Nat}
    (rest : PrintsRest level tag msg turns stop (partEnd msg stop) j) (first : start.toInt = i)
    (last : stop.toInt = j) (ahead : i < j) (inside : j ≤ msg.units.length) (size : j - i ≤ 4063) :
    PrintsRest level tag msg (turns + 1) start stop i := by
  obtain ⟨parts, printed, whole, sizes⟩ := rest
  have more : start < msg.length := by
    rw [lt_length_iff, first]
    omega
  have cut := JavaString.substring_eq first last (Nat.le_of_lt ahead) inside
  refine ⟨(msg.units.drop i).take (j - i) :: parts, ?_, ?_, ?_⟩
  · rw [printLoop_of_lt more cut, printed]
    rfl
  · have behind : msg.units.drop j = (msg.units.drop i).drop (j - i) := by
      rw [List.drop_drop, Nat.add_sub_cancel' (Nat.le_of_lt ahead)]
    rw [List.flatten_cons, whole, behind, List.take_append_drop]
  · intro part mem
    rcases List.mem_cons.mp mem with rfl | mem
    · refine ⟨Nat.le_trans (List.length_take_le _ _) size, ?_⟩
      rw [← List.length_pos_iff, List.length_take, List.length_drop]
      omega
    · exact sizes part mem

/-- **The loop** from a place where a part ends: what it prints is the rest of the message. -/
theorem printsRest (level : Level) (tag : Utf16) (short : msg.units.length ≤ longestPrinted)
    (turns : Nat) {start stop : Int32} {i : Nat} (first : start.toInt = i)
    (border : i = msg.units.length ∨ ∃ k, i = 4063 * k)
    (last : i < msg.units.length → stop.toInt = (min (i + 4063) msg.units.length : Nat))
    (enough : msg.units.length ≤ i + 4063 * turns) :
    PrintsRest level tag msg (turns + 1) start stop i := by
  induction turns generalizing start stop i with
  | zero => exact printsRest_of_end first enough 0
  | succ turns ih =>
    by_cases more : i < msg.units.length
    · obtain ⟨k, rfl⟩ := border.resolve_left (Nat.ne_of_lt more)
      have stops := last more
      generalize next : min (4063 * k + 4063) msg.units.length = j at stops
      have later : j < msg.units.length → j + 4063 < 2 ^ 31 := by
        unfold longestPrinted at short
        omega
      have border : j = msg.units.length ∨ ∃ k, j = 4063 * k := by
        by_cases full : 4063 * k + 4063 ≤ msg.units.length
        · exact .inr ⟨k + 1, by omega⟩
        · exact .inl (by omega)
      have rest := ih stops border (fun more => toInt_partEnd stops (later more)) (by omega)
      exact rest.turn first stops (by omega) (by omega) (by omega)
    · exact printsRest_of_end first (Nat.le_of_not_lt more) (turns + 1)

/-- **The loop on a longer message**, from any border up to the last: it does not return. -/
theorem printLoop_ne (long : longestPrinted < msg.units.length) (turns : Nat) {start stop : Int32}
    {k : Nat} (first : start.toInt = (4063 * k : Nat))
    (last : k < 528546 ∧ stop.toInt = (4063 * (k + 1) : Nat) ∨ k = 528546 ∧ stop.toInt < 0)
    (lines : List LogcatLine) :
    printLoop level tag msg turns start stop ≠ some ⟨lines, false⟩ := by
  unfold longestPrinted at long
  induction turns generalizing start stop k lines with
  | zero =>
    intro eq
    cases eq
  | succ turns ih =>
    have more : start < msg.length := by
      rw [lt_length_iff, first]
      omega
    intro eq
    rcases last with ⟨low, stops⟩ | ⟨-, neg⟩
    · have cut := JavaString.substring_eq (s := msg) first stops (by omega) (by omega)
      rw [printLoop_of_lt more cut] at eq
      obtain ⟨⟨rest, throws⟩, printed, same⟩ := Option.map_eq_some_iff.mp eq
      cases same
      refine ih stops ?_ rest printed
      by_cases next : k + 1 < 528546
      · refine .inl ⟨next, ?_⟩
        rw [toInt_partEnd stops (by omega)]
        omega
      · exact .inr ⟨by omega, partEnd_neg stops (by omega) (by omega)⟩
    · rw [printLoop, if_pos more, JavaString.substring_of_neg start neg] at eq
      cases eq

/-- A longer message is not printed whole. -/
theorem not_printsWhole (long : longestPrinted < msg.units.length) : ¬ PrintsWhole level tag msg := by
  rintro ⟨enough, whole⟩
  obtain ⟨parts, printed, -⟩ := whole enough (Nat.le_refl _)
  have beyond : ¬ msg.length ≤ MAX_LENGTH_OF_SINGLE_MESSAGE := by
    rw [length_le_iff]
    change ¬ (msg.units.length : Int) ≤ 4063
    unfold longestPrinted at long
    omega
  rw [printInner, if_neg beyond] at printed
  exact printLoop_ne long enough (k := 0) rfl (.inl ⟨by omega, rfl⟩) _ printed

/-- **A message is printed whole** if and only if it has at most 2147482398 characters. For every
message, level and tag: `printInner` returns, no `substring` throws, and the parts that are printed are
the message again, each of at most 4063 characters and none empty, unless the message is. -/
theorem message_printed_whole_iff (level : Level) (tag : Utf16) (msg : JavaString) :
    PrintsWhole level tag msg ↔ msg.units.length ≤ longestPrinted := by
  constructor
  · intro whole
    by_contra long
    exact not_printsWhole (Nat.lt_of_not_le long) whole
  · intro short
    by_cases one : msg.length ≤ MAX_LENGTH_OF_SINGLE_MESSAGE
    · have size : msg.units.length ≤ 4063 := by
        rw [length_le_iff] at one
        exact Int.ofNat_le.mp one
      refine ⟨0, fun turns _ => ⟨[msg.units], ?_, ?_, ?_, ?_⟩⟩
      · rw [printInner, if_pos one]
        rfl
      · rw [List.flatten_cons, List.flatten_nil, List.append_nil]
      · intro part mem
        rw [List.mem_singleton.mp mem]
        exact size
      · intro part mem empty
        rw [← List.mem_singleton.mp mem, empty]
    · refine ⟨msg.units.length + 1, fun turns enough => ?_⟩
      obtain ⟨turns, rfl⟩ := Nat.exists_eq_add_of_le' (Nat.le_of_add_left_le enough)
      have long : 4063 < msg.units.length := by
        rw [length_le_iff] at one
        change ¬ (msg.units.length : Int) ≤ 4063 at one
        omega
      have first : (0 : Int32).toInt = (0 : Nat) := rfl
      have last : MAX_LENGTH_OF_SINGLE_MESSAGE.toInt = (min (0 + 4063) msg.units.length : Nat) := by
        rw [Nat.min_eq_left (by omega)]
        rfl
      obtain ⟨parts, printed, whole, sizes⟩ := printsRest level tag short turns first
        (.inr ⟨0, rfl⟩) (fun _ => last) (by omega)
      refine ⟨parts, ?_, whole, fun part mem => (sizes part mem).1, ?_⟩
      · rw [printInner, if_neg one, printed]
      · intro part mem empty
        exact absurd empty (sizes part mem).2

/-- The shortest message that is not: 2147482399 times the same character. -/
theorem longest_messages_throw :
    ¬ PrintsWhole .debug [] ⟨List.replicate 2147482399 0x61, by rw [List.length_replicate]; omega⟩ := by
  apply not_printsWhole
  rw [List.length_replicate]
  exact Nat.lt_of_sub_eq_succ rfl

end Dolin.Zap
