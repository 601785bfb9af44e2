import Dolin.Base.Lines
import Dolin.Laws.Hawkeye.Text
import Dolin.Hawkeye.Unwinder

/-!
# Backtraces read back from a report

A line of a backtrace has the number of its frame, an address, the name of the map and, where it is known,
the function with the offset in it. `backtrace_told` says what a report still tells of its frames: all of
it, up to an offset that is cut to an `int`, as long as the names of maps have no bracket and no line is
cut.
-/

namespace Dolin.Hawkeye.BacktraceLine

open Region Numeral
open Daemon (ascii)

/-- The part of a line behind its address. -/
def tail (line : BacktraceLine) : Bytes :=
  line.mapText ++
    match line.function with
    | none => []
    | some (name, offset) =>
      ascii " (".toList ++ name ++ [0x2b] ++ formatInt (offset.setWidth 32) ++ ascii ")".toList

/-- A line that is recorded whole, and whose map has a name without brackets. -/
structure Plain (line : BacktraceLine) : Prop where
  short : line.text.length ≤ 1023
  oneLine : 0x0a ∉ line.tail
  brackets : 0x28 ∉ line.mapText

/-- What a line tells. -/
def told (line : BacktraceLine) : Nat × BitVec 64 × Bytes × Option (Bytes × BitVec 32) :=
  (line.counter, line.pc, line.mapText, line.function.map fun (name, offset) => (name, offset.setWidth 32))

variable {line line' : BacktraceLine}

theorem text_eq (line : BacktraceLine) : line.text = ascii "    #".toList ++
    (print 10 2 line.counter ++ (ascii " pc ".toList ++ (print 16 16 line.pc.toNat ++
      (ascii "  ".toList ++ line.tail)))) := by
  have assoc (a b c d e f g : Bytes) :
      a ++ b ++ c ++ d ++ e ++ f ++ g = a ++ (b ++ (c ++ (d ++ (e ++ (f ++ g))))) := by
    simp only [List.append_assoc]
  exact assoc _ _ _ _ _ _ _

/-- The number of the frame and the address are read back. -/
theorem text_front (same : line.text = line'.text) :
    line.counter = line'.counter ∧ line.pc = line'.pc ∧ line.tail = line'.tail := by
  rw [text_eq, text_eq] at same
  have counters := congrArg (magnitude 10) (List.append_cancel_left same)
  rw [magnitude_print (by decide) (by decide) (by decide) (by rintro c ⟨⟩; decide),
    magnitude_print (by decide) (by decide) (by decide) (by rintro c ⟨⟩; decide)] at counters
  obtain ⟨counter, behind⟩ := Prod.mk.inj (Option.some.inj counters)
  have pcs := congrArg (magnitude 16) (List.append_cancel_left behind)
  rw [magnitude_print (by decide) (by decide) (by decide) (by rintro c ⟨⟩; decide),
    magnitude_print (by decide) (by decide) (by decide) (by rintro c ⟨⟩; decide)] at pcs
  obtain ⟨pc, behind⟩ := Prod.mk.inj (Option.some.inj pcs)
  exact ⟨counter, BitVec.eq_of_toNat_eq pc, List.append_cancel_left behind⟩

/-! ## Numbers -/

theorem print_inj {base width m n : Nat} (two : 1 < base) (le : base ≤ 36)
    (same : print base width m = print base width n) : m = n := by
  have numbers := congrArg (number base) same
  rwa [number_print two le, number_print two le] at numbers

theorem mem_formatInt {c : UInt8} {value : BitVec 32} (mem : c ∈ formatInt value) :
    c = 0x2d ∨ isDigit 10 c = true := by
  unfold formatInt at mem
  split at mem
  · rcases List.mem_cons.mp mem with rfl | mem
    · exact .inl rfl
    · exact .inr (isDigit_of_mem_print (by decide) (by decide) mem)
  · exact .inr (isDigit_of_mem_print (by decide) (by decide) mem)

/-- `%d` tells its number. -/
theorem formatInt_inj {v w : BitVec 32} (same : formatInt v = formatInt w) : v = w := by
  have other (value : Nat) (rest : Bytes) : print 10 1 value ≠ 0x2d :: rest := by
    intro eq
    have mem : 0x2d ∈ print 10 1 value := by
      rw [eq]
      exact List.mem_cons_self
    exact absurd (isDigit_of_mem_print (by decide) (by decide) mem) (by decide)
  unfold formatInt at same
  split at same <;> split at same
  · exact neg_injective (BitVec.eq_of_toNat_eq (print_inj (by decide) (by decide) (List.cons.inj same).2))
  · exact absurd same.symm (other _ _)
  · exact absurd same (other _ _)
  · exact BitVec.eq_of_toNat_eq (print_inj (by decide) (by decide) same)

/-! ## The rest of a line -/

/-- A text is cut at the first of some byte. -/
theorem cut_first {c : UInt8} {a b u v : Bytes} (free : c ∉ a) (free' : c ∉ b)
    (same : a ++ c :: u = b ++ c :: v) : a = b ∧ u = v := by
  induction a generalizing b with
  | nil =>
    cases b with
    | nil => exact ⟨rfl, (List.cons.inj same).2⟩
    | cons d b => exact absurd ((List.cons.inj same).1 ▸ List.mem_cons_self) free'
  | cons d a ih =>
    cases b with
    | nil => exact absurd ((List.cons.inj same).1 ▸ List.mem_cons_self) free
    | cons e b =>
      obtain ⟨rfl, behind⟩ := List.cons.inj same
      obtain ⟨rfl, rest⟩ := ih (fun mem => free (List.mem_cons_of_mem _ mem))
        (fun mem => free' (List.mem_cons_of_mem _ mem)) behind
      exact ⟨rfl, rest⟩

/-- The offset in a function stands behind the last `+`. -/
theorem offset_inj {name name' : Bytes} {v w : BitVec 32}
    (same : name ++ [0x2b] ++ formatInt v = name' ++ [0x2b] ++ formatInt w) : name = name' ∧ v = w := by
  have run (value : BitVec 32) : ∀ d ∈ formatInt value, decide (d ≠ 0x2b) := by
    intro d mem
    rw [decide_eq_true_eq]
    rintro rfl
    rcases mem_formatInt mem with eq | digit
    · exact absurd eq (by decide)
    · exact absurd digit (by decide)
  obtain ⟨names, values⟩ := @Lines.append_run_inj _ (fun d => decide (d ≠ 0x2b)) _ _ _ _ _ _ (run v) (run w)
    rfl rfl same
  exact ⟨List.append_cancel_right names, formatInt_inj values⟩

theorem tail_some {name : Bytes} {offset : BitVec 64} (known : line.function = some (name, offset)) :
    line.tail = (line.mapText ++ [0x20]) ++ 0x28 ::
      (name ++ [0x2b] ++ formatInt (offset.setWidth 32) ++ [0x29]) := by
  rw [tail, known]
  simp only [List.append_assoc]
  rfl

theorem tail_none (unknown : line.function = none) : line.tail = line.mapText := by
  rw [tail, unknown, List.append_nil]

/-- A line with a function has a bracket. -/
theorem mem_tail {name : Bytes} {offset : BitVec 64} (known : line.function = some (name, offset)) :
    0x28 ∈ line.tail := by
  rw [tail_some known]
  exact List.mem_append_right _ List.mem_cons_self

/-- **A line tells** the number of its frame, the address, the map and the function. -/
theorem told_eq (plain : line.Plain) (plain' : line'.Plain) (same : line.text = line'.text) :
    line.told = line'.told := by
  obtain ⟨counter, pc, tails⟩ := text_front same
  rw [told, told, counter, pc]
  cases known : line.function with
  | none =>
    cases known' : line'.function with
    | none =>
      rw [tail_none known, tail_none known'] at tails
      rw [tails]
    | some function =>
      have bracket := mem_tail known'
      rw [← tails, tail_none known] at bracket
      exact absurd bracket plain.brackets
  | some function =>
    obtain ⟨name, offset⟩ := function
    cases known' : line'.function with
    | none =>
      have bracket := mem_tail known
      rw [tails, tail_none known'] at bracket
      exact absurd bracket plain'.brackets
    | some function' =>
      obtain ⟨name', offset'⟩ := function'
      rw [tail_some known, tail_some known'] at tails
      have free {l : BacktraceLine} (plain : l.Plain) : 0x28 ∉ l.mapText ++ [0x20] := by
        rw [List.mem_append, not_or]
        exact ⟨plain.brackets, by decide⟩
      obtain ⟨maps, functions⟩ := cut_first (free plain) (free plain') tails
      obtain ⟨names, offsets⟩ := offset_inj (List.append_cancel_right functions)
      rw [List.append_cancel_right maps, names]
      exact congrArg (fun o => (line'.counter, line'.pc, line'.mapText, some (name', o))) offsets

/-! ## The lines of a report -/

theorem contribution_dump (plain : line.Plain) (behind : Bytes) :
    (line.dump behind).contribution = line.text ++ [0x0a] := by
  have starts : ∃ b bs, line.text = b :: bs := ⟨0x20, _, text_eq line⟩
  obtain ⟨b, bs, eq⟩ := starts
  have short := plain.short
  rw [eq] at short
  rw [dump, eq, RecordCall.contribution, List.take_of_length_le short]
  exact List.cons_ne_nil b bs

theorem oneLine_text (plain : line.Plain) : 0x0a ∉ line.text := by
  have digits {base width n : Nat} (two : 1 < base) (le : base ≤ 36) : 0x0a ∉ print base width n := by
    intro mem
    have none' := isDigit_mono le (show isDigit 36 0x0a = false by decide)
    rw [isDigit_of_mem_print two le mem] at none'
    cases none'
  rw [text_eq]
  simp only [List.mem_append, not_or]
  exact ⟨by decide, digits (by decide) (by decide), by decide, digits (by decide) (by decide), by decide,
    plain.oneLine⟩

/-- **Backtraces are read back from a report.** Two backtraces whose lines are recorded whole and in maps
without brackets in their names leave the same text only where they have the same frames: as many of them,
each with the same number and address, the same map, and the same function with the same offset, as far as
an `int` tells it. -/
theorem backtrace_told {lines lines' : List (BacktraceLine × Bytes)} (plain : ∀ l ∈ lines, l.1.Plain)
    (plain' : ∀ l ∈ lines', l.1.Plain)
    (same : (lines.map fun l => l.1.dump l.2).flatMap RecordCall.contribution =
      (lines'.map fun l => l.1.dump l.2).flatMap RecordCall.contribution) :
    lines.map (fun l => l.1.told) = lines'.map fun l => l.1.told := by
  induction lines generalizing lines' with
  | nil =>
    cases lines' with
    | nil => rfl
    | cons l' lines' =>
      rw [List.map_cons, List.flatMap_cons, contribution_dump (plain' l' List.mem_cons_self)] at same
      cases List.append_eq_nil_iff.mp (List.append_eq_nil_iff.mp same.symm).1 |>.2
  | cons l lines ih =>
    obtain ⟨here, plain⟩ := List.forall_mem_cons.mp plain
    rw [List.map_cons, List.flatMap_cons, contribution_dump here] at same
    cases lines' with
    | nil => cases List.append_eq_nil_iff.mp (List.append_eq_nil_iff.mp same).1 |>.2
    | cons l' lines' =>
      obtain ⟨here', plain'⟩ := List.forall_mem_cons.mp plain'
      rw [List.map_cons, List.flatMap_cons, contribution_dump here', List.append_assoc,
        List.append_assoc] at same
      obtain ⟨first, rest⟩ := cut_first (oneLine_text here) (oneLine_text here') same
      rw [List.map_cons, List.map_cons, told_eq here here' first, ih plain plain' rest]

/-- A frame in a library and one that is nowhere; the offset has 64 bits, and the other map is said to be
unknown. -/
def twoLines (offset : BitVec 64) (unknown : Option Bytes) : List (BacktraceLine × Bytes) :=
  [(⟨0, 0x1004, some [0x61], some ([0x66], offset)⟩, []), (⟨1, 0, unknown, none⟩, [])]

theorem plain_twoLines : (∀ l ∈ twoLines (-1) none, l.1.Plain) ∧
    ∀ l ∈ twoLines 0xffffffff (some (ascii "<unknown>".toList)), l.1.Plain := by
  constructor
  all_goals
    intro l mem
    rcases List.mem_pair.mp mem with rfl | rfl <;> exact ⟨by decide, by decide, by decide⟩

theorem backtrace_told_twoLines : (twoLines (-1) none).map (fun l => l.1.told) =
    (twoLines 0xffffffff (some (ascii "<unknown>".toList))).map fun l => l.1.told :=
  backtrace_told plain_twoLines.1 plain_twoLines.2 (by decide)

end Dolin.Hawkeye.BacktraceLine
