import Dolin.Base.Lines
import Dolin.Unwindstack.Maps

/-!
# The maps of a process

However the system cuts the file into reads, `Parse` makes a map of each line, up to the first line that
is longer than the buffer: `parse_eq`. A line as the kernel writes it is read back, and in maps that are in
order `Find` gives the one that an address is in: `find_parse`.
-/

namespace Dolin.Unwindstack.Maps

open Region

variable {buffer part tail content : Bytes} {ls : List Bytes} {line bytes turns k : Nat} {maps : List MapInfo}

/-! ## The lines in the buffer -/

/-- Lines, each with its end. -/
def unlines (ls : List Bytes) : Bytes := ls.flatMap (· ++ [0x0a])

/-- What the parser makes of a line of the file. -/
def parseLine (l : Bytes) : Option MapInfo := internalParseLine (cstring l)

theorem unlines_cons (l : Bytes) (ls : List Bytes) : unlines (l :: ls) = l ++ 0x0a :: unlines ls := by
  rw [unlines, List.flatMap_cons, List.append_assoc]
  rfl

theorem cstring_append_zero (l rest : Bytes) : cstring (l ++ 0 :: rest) = cstring l := by
  unfold cstring
  induction l with
  | nil => rfl
  | cons c l ih =>
    rw [List.cons_append, List.takeWhile_cons, List.takeWhile_cons, ih]

theorem findIdx?_line {l : Bytes} (whole : 0x0a ∉ l) (rest : Bytes) :
    (l ++ 0x0a :: rest).findIdx? (· == 0x0a) = some l.length := by
  induction l with
  | nil => rfl
  | cons c l ih =>
    obtain ⟨other, whole⟩ := not_or.mp (mt List.mem_cons.mpr whole)
    rw [List.cons_append, List.findIdx?_cons, ih whole, if_neg (by simpa using Ne.symm other)]
    rfl

theorem findIdx?_part (last : 0x0a ∉ part) : part.findIdx? (· == 0x0a) = none := by
  rw [List.findIdx?_eq_none_iff]
  intro c mem
  exact beq_eq_false_iff_ne.mpr fun same => last (same ▸ mem)

theorem length_window (inside : line + bytes ≤ buffer.length) :
    ((buffer.drop line).take bytes).length = bytes := by
  rw [List.length_take, List.length_drop]
  omega

/-- The last bytes of a read are moved to the front. -/
theorem scanLines_part (last : 0x0a ∉ part) (inside : line + bytes ≤ buffer.length)
    (window : (buffer.drop line).take bytes = part) (enough : bytes ≤ turns) :
    ∃ buffer', scanLines turns buffer line bytes maps = ⟨buffer', part.length, true, maps⟩ ∧
      buffer'.length = buffer.length ∧ buffer'.take part.length = part := by
  have size : part.length = bytes := by rw [← window, length_window inside]
  by_cases nothing : bytes = 0
  · subst nothing
    have empty : part = [] := List.eq_nil_of_length_eq_zero size
    subst empty
    cases turns with
    | zero => exact ⟨buffer, rfl, rfl, rfl⟩
    | succ turns => exact ⟨buffer, by rw [scanLines, if_pos rfl]; rfl, rfl, rfl⟩
  · obtain ⟨turns, rfl⟩ := Nat.exists_eq_succ_of_ne_zero (Nat.ne_of_gt (Nat.lt_of_lt_of_le
      (Nat.pos_of_ne_zero nothing) enough))
    refine ⟨moveFront buffer line bytes, ?_, ?_, ?_⟩
    · rw [scanLines, if_neg nothing, window, findIdx?_part last, size]
    · rw [moveFront, window, List.length_append, List.length_drop, size]
      omega
    · rw [moveFront, window, List.take_left' rfl]

/-- The first line of the buffer. -/
theorem scanLines_line {l rest : Bytes} (whole : 0x0a ∉ l) (inside : line + bytes ≤ buffer.length)
    (window : (buffer.drop line).take bytes = l ++ 0x0a :: rest) :
    ∃ buffer', scanLines (turns + 1) buffer line bytes maps =
        (match parseLine l with
        | none => ⟨buffer', bytes, false, maps⟩
        | some mapInfo =>
          scanLines turns buffer' (line + l.length + 1) (bytes - (l.length + 1)) (maps ++ [mapInfo])) ∧
      buffer'.length = buffer.length ∧
      (buffer'.drop (line + l.length + 1)).take (bytes - (l.length + 1)) = rest := by
  have size : bytes = l.length + (rest.length + 1) := by
    rw [← length_window inside, window, List.length_append, List.length_cons]
  have split : buffer.drop line = l ++ 0x0a :: (rest ++ buffer.drop (line + bytes)) := by
    rw [← List.take_append_drop bytes (buffer.drop line), window, List.drop_drop, List.append_assoc,
      List.cons_append]
  refine ⟨buffer.set (line + l.length) 0, ?_, List.length_set, ?_⟩
  · have string : cstring ((buffer.set (line + l.length) 0).drop line) = cstring l := by
      rw [List.drop_set, if_neg (by omega), Nat.add_sub_cancel_left, split,
        List.set_append_right _ _ (Nat.le_refl _), Nat.sub_self, List.set_cons_zero, cstring_append_zero]
    rw [scanLines, if_neg (by omega), window, findIdx?_line whole]
    dsimp only
    rw [string]
    rfl
  · rw [List.drop_set, if_pos (by omega), Nat.add_assoc, ← List.drop_drop, split, size]
    rw [show l ++ 0x0a :: (rest ++ buffer.drop (line + (l.length + (rest.length + 1)))) =
      (l ++ [0x0a]) ++ (rest ++ buffer.drop (line + (l.length + (rest.length + 1)))) by
        simp only [List.append_assoc, List.cons_append, List.nil_append],
      List.drop_left' (by rw [List.length_append]; rfl),
      List.take_left' (by omega)]

/-- **The lines in the buffer**: where each is one of a map, the maps are added and the rest is moved to the
front; otherwise the scan says so. -/
theorem scanLines_eq (whole : ∀ l ∈ ls, 0x0a ∉ l) (last : 0x0a ∉ part) (inside : line + bytes ≤ buffer.length)
    (window : (buffer.drop line).take bytes = unlines ls ++ part) (enough : bytes ≤ turns) :
    ((∀ l ∈ ls, (parseLine l).isSome) →
      ∃ buffer', scanLines turns buffer line bytes maps =
          ⟨buffer', part.length, true, maps ++ ls.filterMap parseLine⟩ ∧
        buffer'.length = buffer.length ∧ buffer'.take part.length = part) ∧
    ((scanLines turns buffer line bytes maps).ok = true → ∀ l ∈ ls, (parseLine l).isSome) := by
  induction ls generalizing buffer line bytes turns maps with
  | nil =>
    refine ⟨fun _ => ?_, fun _ _ mem => absurd mem List.not_mem_nil⟩
    rw [List.filterMap_nil, List.append_nil]
    exact scanLines_part last inside window enough
  | cons l ls ih =>
    rw [unlines_cons, List.append_assoc, List.cons_append] at window
    have size : bytes = l.length + ((unlines ls ++ part).length + 1) := by
      rw [← length_window inside, window, List.length_append, List.length_cons]
    obtain ⟨turns, rfl⟩ := Nat.exists_eq_succ_of_ne_zero (show turns ≠ 0 by omega)
    obtain ⟨buffer', scan, length, window'⟩ :=
      @scanLines_line buffer line bytes turns maps l _ (whole l List.mem_cons_self) inside window
    rw [scan]
    cases parsed : parseLine l with
    | none =>
      refine ⟨fun all => ?_, nofun⟩
      have isSome := all l List.mem_cons_self
      rw [parsed] at isSome
      cases isSome
    | some mapInfo =>
      obtain ⟨good, bad⟩ := @ih buffer' (line + l.length + 1) (bytes - (l.length + 1)) turns (maps ++ [mapInfo])
        (fun l mem => whole l (List.mem_cons_of_mem _ mem)) (by omega) window' (by omega)
      constructor
      · intro all
        obtain ⟨buffer'', scan', length', front⟩ := good fun l mem => all l (List.mem_cons_of_mem _ mem)
        refine ⟨buffer'', scan'.trans ?_, length'.trans length, front⟩
        rw [List.filterMap_cons_some parsed, List.append_assoc, List.singleton_append]
      · intro ok l' mem
        rcases List.mem_cons.mp mem with rfl | mem
        · rw [parsed]
          rfl
        · exact bad ok l' mem

/-! ## The reads -/

/-- A line that fits into the buffer with its end. -/
def short (l : Bytes) : Bool := l.length < bufferSize

theorem length_lt_unlines {l : Bytes} (mem : l ∈ ls) : l.length < (unlines ls).length := by
  induction ls with
  | nil => exact absurd mem List.not_mem_nil
  | cons first ls ih =>
    rw [unlines_cons, List.length_append, List.length_cons]
    rcases List.mem_cons.mp mem with rfl | mem
    · omega
    · have lt := ih mem
      omega

/-- What is read of a text: some of its lines, and a part without a line end. -/
theorem cut (whole : ∀ l ∈ ls, 0x0a ∉ l) (last : 0x0a ∉ tail) {region : Bytes}
    (text : region ++ content = unlines ls ++ tail) :
    ∃ ls₁ ls₂ part, ls = ls₁ ++ ls₂ ∧ region = unlines ls₁ ++ part ∧ 0x0a ∉ part ∧
      part ++ content = unlines ls₂ ++ tail := by
  induction ls generalizing region with
  | nil =>
    refine ⟨[], [], region, rfl, rfl, fun mem => last ?_, text⟩
    rw [← List.nil_append tail]
    exact text ▸ List.mem_append_left _ mem
  | cons l ls ih =>
    by_cases ends : 0x0a ∈ region
    · obtain ⟨first, rest, rfl, before⟩ := List.eq_append_cons_of_mem ends
      rw [unlines_cons, List.append_assoc, List.append_assoc, List.cons_append, List.cons_append] at text
      obtain rfl : first = l := by
        have heads := congrArg (List.splitOnP (· == 0x0a)) text
        rw [Lines.splitOnP_line before, Lines.splitOnP_line (whole l List.mem_cons_self)] at heads
        exact (List.cons.inj heads).1
      have text' := (List.cons.inj (List.append_cancel_left text)).2
      obtain ⟨ls₁, ls₂, part, rfl, rfl, free, after⟩ :=
        ih (fun l mem => whole l (List.mem_cons_of_mem _ mem)) text'
      refine ⟨first :: ls₁, ls₂, part, rfl, ?_, free, after⟩
      rw [unlines_cons, List.append_assoc, List.cons_append]
    · exact ⟨[], l :: ls, region, rfl, rfl, ends, text⟩

/-- Where no more can be read, the next line does not fit. -/
theorem takeWhile_short (whole : ∀ l ∈ ls, 0x0a ∉ l) (free : 0x0a ∉ part)
    (text : part ++ content = unlines ls ++ tail) (ended : content = [] ∨ bufferSize ≤ part.length) :
    ls.takeWhile short = [] := by
  cases ls with
  | nil => rfl
  | cons l ls =>
    rw [unlines_cons, List.append_assoc, List.cons_append] at text
    rcases ended with rfl | full
    · rw [List.append_nil] at text
      exact absurd (text ▸ List.mem_append_right _ List.mem_cons_self) free
    · have long : ¬ l.length < bufferSize := by
        intro fits
        have lineEnd : (part ++ content)[l.length]? = some 0x0a := by
          rw [text, List.getElem?_append_right (Nat.le_refl _), Nat.sub_self]
          rfl
        rw [List.getElem?_append_left (by omega)] at lineEnd
        exact free (List.mem_of_getElem? lineEnd)
      rw [List.takeWhile_cons, short, decide_eq_false long]
      rfl

/-- Between two reads, the bytes that are not scanned are lines and a part without a line end: those that are
left over stand at the front of the buffer, the others are still in the file. -/
structure Unscanned (buffer content : Bytes) (leftover : Nat) (ls : List Bytes) (tail : Bytes) : Prop where
  size : buffer.length = bufferSize
  front : leftover ≤ bufferSize
  free : 0x0a ∉ buffer.take leftover
  text : buffer.take leftover ++ content = unlines ls ++ tail

/-- At the beginning nothing is read. -/
theorem unscanned_start (size : buffer.length = bufferSize) (text : content = unlines ls ++ tail) :
    Unscanned buffer content 0 ls tail where
  size := size
  front := Nat.zero_le _
  free := by
    rw [List.take_zero]
    exact List.not_mem_nil
  text := by rw [List.take_zero, List.nil_append, text]

namespace Unscanned

variable {leftover most : Nat} {chunk : Bytes}

theorem length_front (unscanned : Unscanned buffer content leftover ls tail) :
    (buffer.take leftover).length = leftover :=
  List.length_take_of_le (unscanned.size ▸ unscanned.front)

/-- The read that gives nothing: there is nothing left, or the next line does not fit. -/
theorem ended (unscanned : Unscanned buffer content leftover ls tail) (whole : ∀ l ∈ ls, 0x0a ∉ l)
    (nothing : content.take (min (most + 1) (bufferSize - leftover)) = []) : ls.takeWhile short = [] := by
  refine takeWhile_short whole unscanned.free unscanned.text ?_
  rcases List.take_eq_nil_iff.mp nothing with full | empty
  · exact .inr (by rw [unscanned.length_front]; omega)
  · exact .inl empty

theorem length_fill (unscanned : Unscanned buffer content leftover ls tail)
    (bound : chunk.length ≤ bufferSize - leftover) : (fill buffer leftover chunk).length = bufferSize := by
  have front := unscanned.front
  rw [fill, List.length_append, List.length_append, unscanned.length_front, List.length_drop, unscanned.size]
  omega

/-- The read that gives some bytes: the lines that stand whole in the buffer with them, and what is behind. -/
theorem read (unscanned : Unscanned buffer (chunk ++ content) leftover ls tail) (whole : ∀ l ∈ ls, 0x0a ∉ l)
    (last : 0x0a ∉ tail) (bound : chunk.length ≤ bufferSize - leftover) :
    ∃ ls₁ ls₂ part, ls = ls₁ ++ ls₂ ∧ (∀ l ∈ ls₁, short l) ∧ 0x0a ∉ part ∧
      (fill buffer leftover chunk).take (leftover + chunk.length) = unlines ls₁ ++ part ∧
      ∀ buffer' : Bytes, buffer'.length = bufferSize → buffer'.take part.length = part →
        Unscanned buffer' content part.length ls₂ tail := by
  have text := unscanned.text
  have front := unscanned.front
  rw [← List.append_assoc] at text
  obtain ⟨ls₁, ls₂, part, rfl, region, free, behind⟩ := cut whole last text
  have total : (buffer.take leftover ++ chunk).length = leftover + chunk.length := by
    rw [List.length_append, unscanned.length_front]
  have lengths := congrArg List.length region
  rw [total, List.length_append] at lengths
  refine ⟨ls₁, ls₂, part, rfl, fun l mem => decide_eq_true ?_, free, ?_, fun buffer' size moved => ?_⟩
  · have le := length_lt_unlines mem
    omega
  · rw [fill, List.take_left' total, region]
  · exact ⟨size, by omega, moved.symm ▸ free, moved.symm ▸ behind⟩

end Unscanned

theorem parseLoop_false {reads : Nat → Option Nat} {leftover : Nat} :
    (parseLoop reads turns k content buffer leftover false maps).1 = false := by
  induction turns generalizing k content buffer leftover maps with
  | zero => rfl
  | succ turns ih =>
    rw [parseLoop]
    split
    · rfl
    · dsimp only
      split
      · rfl
      · exact ih

/-- **The loop over the reads**, at any place of the file. -/
theorem parseLoop_eq {reads : Nat → Option Nat} {leftover : Nat} (answered : ∀ k, (reads k).isSome)
    (whole : ∀ l ∈ ls, 0x0a ∉ l) (last : 0x0a ∉ tail)
    (unscanned : Unscanned buffer content leftover ls tail) (enough : content.length < turns) :
    ((∀ l ∈ ls.takeWhile short, (parseLine l).isSome) →
      parseLoop reads turns k content buffer leftover true maps =
        (true, maps ++ (ls.takeWhile short).filterMap parseLine)) ∧
    ((parseLoop reads turns k content buffer leftover true maps).1 = true →
      ∀ l ∈ ls.takeWhile short, (parseLine l).isSome) := by
  induction turns generalizing k content buffer leftover maps ls with
  | zero => exact absurd enough (Nat.not_lt_zero _)
  | succ turns ih =>
    obtain ⟨most, answer⟩ := Option.isSome_iff_exists.mp (answered k)
    rw [parseLoop, answer]
    dsimp only
    generalize chunkIs : content.take (min (most + 1) (bufferSize - leftover)) = chunk
    by_cases ended : chunk = []
    · rw [if_pos ended, unscanned.ended whole (chunkIs.trans ended), List.filterMap_nil, List.append_nil]
      exact ⟨fun _ => rfl, fun _ _ mem => absurd mem List.not_mem_nil⟩
    · rw [if_neg ended]
      have positive : 0 < chunk.length := List.length_pos_iff.mpr ended
      have bound : chunk.length ≤ bufferSize - leftover := by
        rw [← chunkIs, List.length_take]
        omega
      have rest : chunk ++ content.drop chunk.length = content := by
        rw [← chunkIs, List.length_take, List.take_eq_take_min]
        exact List.take_append_drop _ content
      have shorter : (content.drop chunk.length).length < turns := by
        rw [List.length_drop]
        have length := congrArg List.length rest
        rw [List.length_append] at length
        omega
      rw [← rest] at unscanned
      obtain ⟨ls₁, ls₂, part, rfl, fits, free, window, next⟩ := unscanned.read whole last bound
      have size := unscanned.length_fill bound
      have inside : 0 + (leftover + chunk.length) ≤ (fill buffer leftover chunk).length := by
        have front := unscanned.front
        omega
      obtain ⟨good, bad⟩ := @scanLines_eq (fill buffer leftover chunk) part ls₁ 0 _ _ maps
        (fun l mem => whole l (List.mem_append_left _ mem)) free inside window (Nat.le_refl _)
      rw [List.takeWhile_append_of_pos fits]
      by_cases all : ∀ l ∈ ls₁, (parseLine l).isSome
      · -- every line in the buffer is one of a map: the rest of the file is read as it would be alone
        obtain ⟨buffer', out, length, front⟩ := good all
        obtain ⟨goodRest, badRest⟩ := @ih buffer' _ ls₂ (k + 1) (maps ++ ls₁.filterMap parseLine) part.length
          (fun l mem => whole l (List.mem_append_right _ mem)) (next buffer' (length.trans size) front) shorter
        rw [out, List.filterMap_append, ← List.append_assoc]
        refine ⟨fun told => goodRest fun l mem => told l (List.mem_append_right _ mem), fun ok l mem => ?_⟩
        rcases List.mem_append.mp mem with mem | mem
        · exact all l mem
        · exact badRest ok l mem
      · -- one of them is not: `Parse` goes on, and says `false` in the end
        have failed := Bool.eq_false_iff.mpr (mt bad all)
        rw [failed, Bool.and_false]
        refine ⟨fun told => absurd (fun l mem => told l (List.mem_append_left _ mem)) all, fun ok => ?_⟩
        rw [parseLoop_false] at ok
        cases ok

/-- The lines of a file that are ended. -/
def completeLines (content : Bytes) : List Bytes := (content.splitOnP (· == 0x0a)).dropLast

theorem completeLines_line {l : Bytes} (whole : 0x0a ∉ l) (rest : Bytes) :
    completeLines (l ++ 0x0a :: rest) = l :: completeLines rest := by
  rw [completeLines, Lines.splitOnP_line whole, List.dropLast_cons_of_ne_nil (List.splitOnP_ne_nil _ _)]
  rfl

theorem content_eq (content : Bytes) :
    ∃ tail, 0x0a ∉ tail ∧ content = unlines (completeLines content) ++ tail ∧
      ∀ l ∈ completeLines content, 0x0a ∉ l := by
  induction content using Lines.line_induction (0x0a : UInt8) with
  | last l whole =>
    rw [completeLines, Lines.splitOnP_last whole]
    exact ⟨l, whole, rfl, fun _ mem => absurd mem List.not_mem_nil⟩
  | line l rest whole ih =>
    obtain ⟨tail, last, same, all⟩ := ih
    refine ⟨tail, last, ?_, fun l' mem => ?_⟩
    · rw [completeLines_line whole, unlines_cons, List.append_assoc, List.cons_append, ← same]
    · rw [completeLines_line whole, List.mem_cons] at mem
      rcases mem with rfl | mem
      · exact whole
      · exact all l' mem

theorem completeLines_unlines (whole : ∀ l ∈ ls, 0x0a ∉ l) (last : 0x0a ∉ tail) :
    completeLines (unlines ls ++ tail) = ls := by
  induction ls with
  | nil =>
    change completeLines tail = []
    rw [completeLines, Lines.splitOnP_last last]
    rfl
  | cons l ls ih =>
    rw [unlines_cons, List.append_assoc, List.cons_append, completeLines_line (whole l List.mem_cons_self),
      ih fun l' mem => whole l' (List.mem_cons_of_mem _ mem)]

/-- **The file, however it is read.** `Parse` makes a map of each line that is ended, up to the first that
is longer than the buffer, and it says `true` exactly where each of these is the line of a map. -/
theorem parse_eq {reads : Nat → Option Nat} (answered : ∀ k, (reads k).isSome)
    (size : buffer.length = bufferSize) (content : Bytes) :
    ((parse reads buffer (some content)).1 = true ↔
      ∀ l ∈ (completeLines content).takeWhile short, (parseLine l).isSome) ∧
    ((parse reads buffer (some content)).1 = true →
      (parse reads buffer (some content)).2 =
        ((completeLines content).takeWhile short).filterMap parseLine) := by
  obtain ⟨tail, last, same, whole⟩ := content_eq content
  obtain ⟨good, bad⟩ := @parseLoop_eq buffer tail content (completeLines content) (content.length + 1) 0 []
    reads 0 answered whole last (unscanned_start size same) (Nat.lt_succ_self _)
  rw [parse]
  refine ⟨⟨bad, fun all => by rw [good all]⟩, fun ok => ?_⟩
  rw [good (bad ok), List.nil_append]

/-- `1000-3000 r-xp 0 0:0 0 /a`, and `3000-4000 rw-p 0 0:0 0`. -/
def codeLine : Bytes :=
  [0x31, 0x30, 0x30, 0x30, 0x2d, 0x33, 0x30, 0x30, 0x30, 0x20, 0x72, 0x2d, 0x78, 0x70, 0x20, 0x30, 0x20,
    0x30, 0x3a, 0x30, 0x20, 0x30, 0x20, 0x2f, 0x61]
def dataLine : Bytes :=
  [0x33, 0x30, 0x30, 0x30, 0x2d, 0x34, 0x30, 0x30, 0x30, 0x20, 0x72, 0x77, 0x2d, 0x70, 0x20, 0x30, 0x20,
    0x30, 0x3a, 0x30, 0x20, 0x30]

/-- Two maps, a line that does not fit into the buffer, and one more map. -/
def longThird : List Bytes := [codeLine, dataLine, List.replicate bufferSize 0x61, codeLine]

/-- An empty line between two maps. -/
def emptySecond : List Bytes := [codeLine, [], dataLine]

/-- With one to three bytes at a read, the maps in front of the long line are told; with the empty line
`Parse` says `false`. -/
theorem parse_eq_longThird :
    parse (fun k => some (k % 3)) (List.replicate bufferSize 0) (some (unlines longThird ++ dataLine)) =
        (true, [⟨0x1000, 0x3000, 0, 5, [0x2f, 0x61]⟩, ⟨0x3000, 0x4000, 0, 3, []⟩]) ∧
      (parse (fun k => some (k % 3)) (List.replicate bufferSize 0) (some (unlines emptySecond ++ codeLine))).1 ≠
        true := by
  have long := completeLines_unlines (show ∀ l ∈ longThird, 0x0a ∉ l by decide +kernel)
    (show 0x0a ∉ dataLine by decide)
  have empty := completeLines_unlines (show ∀ l ∈ emptySecond, 0x0a ∉ l by decide)
    (show 0x0a ∉ codeLine by decide)
  have front : longThird.takeWhile short = [codeLine, dataLine] := by decide +kernel
  obtain ⟨ok, told⟩ := @parse_eq (List.replicate bufferSize 0) (fun k => some (k % 3)) (fun _ => rfl)
    List.length_replicate (unlines longThird ++ dataLine)
  obtain ⟨bad, -⟩ := @parse_eq (List.replicate bufferSize 0) (fun k => some (k % 3)) (fun _ => rfl)
    List.length_replicate (unlines emptySecond ++ codeLine)
  rw [long, front] at ok told
  have isTrue := ok.mpr (by decide +kernel)
  rw [empty] at bad
  exact ⟨Prod.ext isTrue ((told isTrue).trans (by decide +kernel)), mt bad.mp (by decide +kernel)⟩

/-! ## A line as the kernel writes it -/

/-- What the kernel tells of a map. -/
structure Entry where
  start : BitVec 64
  end_ : BitVec 64
  read : Bool
  write : Bool
  exec : Bool
  shared : Bool
  offset : BitVec 64
  major : Nat
  minor : Nat
  inode : Nat
  pad : Nat
  name : Bytes

namespace Entry

/-- A letter where it is granted, and a dash. -/
def letter (granted : Bool) (c : UInt8) : UInt8 := if granted then c else 0x2d

/-- `%08lx-%08lx %c%c%c%c %08llx %02x:%02x %lu ` with the name behind spaces. -/
def text (e : Entry) : Bytes :=
  Numeral.print 16 8 e.start.toNat ++ 0x2d :: (Numeral.print 16 8 e.end_.toNat ++ 0x20 ::
    letter e.read 0x72 :: letter e.write 0x77 :: letter e.exec 0x78 ::
      (if e.shared then 0x73 else 0x70) :: 0x20 ::
      (Numeral.print 16 8 e.offset.toNat ++ 0x20 :: (Numeral.print 16 2 e.major ++ 0x3a ::
        (Numeral.print 16 2 e.minor ++ 0x20 :: (Numeral.print 10 1 e.inode ++ 0x20 ::
          (List.replicate e.pad 0x20 ++ e.name))))))

/-- The flags of the permissions. -/
def permissions (e : Entry) : UInt16 :=
  (if e.read then protRead else 0) ||| (if e.write then protWrite else 0) ||| (if e.exec then protExec else 0)

/-- The map of an entry. -/
def mapInfo (e : Entry) : MapInfo := ⟨e.start, e.end_, e.offset, deviceFlags e.name e.permissions, e.name⟩

/-- The name is a C string of one line that begins with no space. -/
structure Named (e : Entry) : Prop where
  noEnd : 0x0a ∉ e.name
  noZero : 0 ∉ e.name
  noSpace : ∀ c ∈ e.name.head?, Hawkeye.isspace c = false

end Entry

theorem digit_facts {c : UInt8} (isDigit : Numeral.isDigit 16 c = true) :
    Hawkeye.isspace c = false ∧ c ≠ 0x2d ∧ c ≠ 0x2b ∧ c ≠ 0x78 ∧ c ≠ 0x58 ∧ c ≠ 0 ∧ c ≠ 0x0a := by
  have all : ∀ n < 256, Numeral.isDigit 16 (UInt8.ofNat n) = true → Hawkeye.isspace (UInt8.ofNat n) = false ∧
      UInt8.ofNat n ≠ 0x2d ∧ UInt8.ofNat n ≠ 0x2b ∧ UInt8.ofNat n ≠ 0x78 ∧ UInt8.ofNat n ≠ 0x58 ∧
      UInt8.ofNat n ≠ 0 ∧ UInt8.ofNat n ≠ 0x0a := by decide +kernel
  have this' := all c.toNat c.toNat_lt
  rw [UInt8.ofNat_toNat] at this'
  exact this' isDigit

theorem isDigit_hex {base : Nat} {c : UInt8} (le : base ≤ 16) (isDigit : Numeral.isDigit base c = true) :
    Numeral.isDigit 16 c = true := by
  rw [Numeral.isDigit] at isDigit ⊢
  cases held : Numeral.value c with
  | none => rw [held] at isDigit; cases isDigit
  | some v =>
    rw [held, Option.any_some, decide_eq_true_eq] at isDigit
    exact decide_eq_true (Nat.lt_of_lt_of_le isDigit le)

theorem unprefixed_eq {base : Nat} {text : Bytes} (second : ∀ c, text[1]? = some c → c ≠ 0x78 ∧ c ≠ 0x58) :
    unprefixed base text = text := by
  unfold unprefixed
  split
  · next zero x c rest =>
    obtain ⟨lower, upper⟩ := second x rfl
    exact if_neg fun ⟨_, _, prefix', _⟩ => prefix'.elim lower upper
  · rfl

/-- **A printed number** is read by `strtoull` up to what goes on with no digit. -/
theorem strtoull_print {base width n : Nat} {rest : Bytes} (two : 1 < base) (le : base ≤ 16)
    (positive : 0 < width)
    (stops : Numeral.Stops rest) :
    strtoull base (Numeral.print base width n ++ rest) =
      some (if 2 ^ 64 ≤ n then -1 else BitVec.ofNat 64 n, rest) := by
  have digits : ∀ c ∈ Numeral.print base width n, Numeral.isDigit 16 c = true := fun c mem =>
    isDigit_hex le (Numeral.isDigit_of_mem_print two (Nat.le_trans le (by decide)) mem)
  have read := @Numeral.magnitude_print base width n rest two (Nat.le_trans le (by decide)) positive stops
  have plain : unprefixed base (Numeral.print base width n ++ rest) = Numeral.print base width n ++ rest := by
    refine unprefixed_eq fun c second => ?_
    rw [List.getElem?_append] at second
    split at second
    · obtain ⟨-, -, -, lower, upper, -⟩ := digit_facts (digits c (List.mem_of_getElem? second))
      exact ⟨lower, upper⟩
    · have length : 1 ≤ (Numeral.print base width n).length :=
        List.length_pos_iff.mpr (Numeral.print_ne_nil positive)
      rw [show 1 - (Numeral.print base width n).length = 0 by omega, ← List.head?_eq_getElem?] at second
      have stop := stops c second
      constructor
      · rintro rfl
        exact absurd stop (by decide)
      · rintro rfl
        exact absurd stop (by decide)
  have signless : strtoull base (Numeral.print base width n ++ rest) =
      strtoullDigits base false (Numeral.print base width n ++ rest) := by
    cases shown : Numeral.print base width n with
    | nil => exact absurd shown (Numeral.print_ne_nil positive)
    | cons c cs =>
      obtain ⟨space, minus, plus, -⟩ := digit_facts (digits c (shown ▸ List.mem_cons_self))
      rw [strtoull, List.cons_append, List.dropWhile_cons, space]
      split
      · next same => exact absurd (List.cons.inj same).1 minus
      · next same => exact absurd (List.cons.inj same).1 plus
      · rfl
  rw [signless, strtoullDigits, plain, read]
  dsimp only
  split <;> rfl

theorem plain_print {base width n : Nat} (two : 1 < base) (le : base ≤ 16) :
    ∀ c ∈ Numeral.print base width n, c ≠ 0 ∧ c ≠ 0x0a := by
  intro c mem
  obtain ⟨-, -, -, -, -, zero, end'⟩ :=
    digit_facts (isDigit_hex le (Numeral.isDigit_of_mem_print two (Nat.le_trans le (by decide)) mem))
  exact ⟨zero, end'⟩

/-- A line of the kernel is a C string without an end of line. -/
theorem Entry.plain {e : Entry} (named : e.Named) : ∀ c ∈ e.text, c ≠ 0 ∧ c ≠ 0x0a := by
  have hex : ∀ {width n : Nat}, ∀ c ∈ Numeral.print 16 width n, c ≠ 0 ∧ c ≠ 0x0a :=
    plain_print (by decide) (by decide)
  have letters : ∀ granted, ∀ c : UInt8, c ≠ 0 ∧ c ≠ 0x0a → letter granted c ≠ 0 ∧ letter granted c ≠ 0x0a := by
    intro granted c plain
    cases granted with
    | false => exact ⟨show (0x2d : UInt8) ≠ 0 by decide, show (0x2d : UInt8) ≠ 0x0a by decide⟩
    | true => exact plain
  unfold Entry.text
  simp only [List.forall_mem_append, List.forall_mem_cons]
  refine ⟨hex, by decide, hex, by decide, letters _ _ (by decide), letters _ _ (by decide), 
    letters _ _ (by decide), ?_, by decide, hex, by decide, hex, by decide, hex, by decide,
    plain_print (by decide) (by decide), by decide,
    ?_, ?_⟩
  · cases e.shared <;> decide
  · intro c mem
    rw [List.eq_of_mem_replicate mem]
    decide
  · exact fun c mem => ⟨fun same => named.noZero (same ▸ mem), fun same => named.noEnd (same ▸ mem)⟩

theorem stops_cons {c : UInt8} (stop : Numeral.isDigit 36 c = false) (rest : Bytes) :
    Numeral.Stops (c :: rest) := by
  rintro c' ⟨⟩
  exact stop

/-- A number behind a space. -/
theorem strtoull_space {base : Nat} (text : Bytes) : strtoull base (0x20 :: text) = strtoull base text := rfl

theorem dropWhile_pad {e : Entry} (named : e.Named) :
    (List.replicate e.pad 0x20 ++ e.name).dropWhile Hawkeye.isspace = e.name := by
  rw [List.dropWhile_append_of_pos fun c mem => by rw [List.eq_of_mem_replicate mem]; rfl]
  cases name : e.name with
  | nil => rfl
  | cons c rest =>
    rw [List.dropWhile_cons, named.noSpace c (by rw [name]; rfl)]
    rfl

theorem atSpace_print {width n : Nat} (positive : 0 < width) (rest : Bytes) :
    atSpace (Numeral.print 16 width n ++ rest) = false := by
  cases shown : Numeral.print 16 width n with
  | nil => exact absurd shown (Numeral.print_ne_nil positive)
  | cons c cs =>
    have digit :=
      @Numeral.isDigit_of_mem_print 16 width n (by decide) (by decide) c (shown ▸ List.mem_cons_self)
    exact (digit_facts digit).1

theorem strtoull_word {c : UInt8} (v : BitVec 64) (rest : Bytes) (stop : Numeral.isDigit 36 c = false) :
    strtoull 16 (Numeral.print 16 8 v.toNat ++ c :: rest) = some (v, c :: rest) := by
  rw [strtoull_print (by decide) (by decide) (by decide) (stops_cons stop rest),
    if_neg (Nat.not_le.mpr v.isLt), BitVec.ofNat_toNat, BitVec.setWidth_eq]

theorem parseAddresses_print (start end' : BitVec 64) (rest : Bytes) :
    parseAddresses (Numeral.print 16 8 start.toNat ++ 0x2d :: (Numeral.print 16 8 end'.toNat ++ 0x20 :: rest)) =
      some ((start, end'), rest) := by
  rw [parseAddresses, strtoull_word _ _ (by decide)]
  change (strtoull 16 (Numeral.print 16 8 end'.toNat ++ 0x20 :: rest)).bind _ = _
  rw [strtoull_word _ _ (by decide)]
  rfl

theorem parsePermissions_print (r w x shared : Bool) (rest : Bytes) :
    parsePermissions (Entry.letter r 0x72 :: Entry.letter w 0x77 :: Entry.letter x 0x78 ::
        (if shared then 0x73 else 0x70) :: 0x20 :: rest) =
      some ((if r then protRead else 0) ||| (if w then protWrite else 0) ||| (if x then protExec else 0),
        rest) := by
  cases r <;> cases w <;> cases x <;> cases shared <;> rfl

theorem parseOffset_print (offset : BitVec 64) (rest : Bytes) :
    parseOffset (Numeral.print 16 8 offset.toNat ++ 0x20 :: rest) = some (offset, 0x20 :: rest) := by
  rw [parseOffset, strtoull_word _ _ (by decide)]
  rfl

theorem skipDevice_print (major minor inode : Nat) (rest : Bytes) :
    skipDevice (0x20 :: (Numeral.print 16 2 major ++ 0x3a :: (Numeral.print 16 2 minor ++ 0x20 ::
        (Numeral.print 10 1 inode ++ 0x20 :: rest)))) = some (0x20 :: rest) := by
  rw [skipDevice, strtoull_space, strtoull_print (by decide) (by decide) (by decide) (stops_cons (by decide) _)]
  change (if atSpace (Numeral.print 16 2 minor ++ _) then none else _) = _
  rw [atSpace_print (by decide), if_neg Bool.false_ne_true,
    strtoull_print (by decide) (by decide) (by decide) (stops_cons (by decide) _)]
  change (strtoull 10 (Numeral.print 10 1 inode ++ 0x20 :: rest)).bind _ = _
  rw [strtoull_print (by decide) (by decide) (by decide) (stops_cons (by decide) _)]
  rfl

/-- **A line of the kernel reads back.** -/
theorem parseLine_text {e : Entry} (named : e.Named) : parseLine e.text = some e.mapInfo := by
  have string : cstring e.text = e.text :=
    List.takeWhile_eq_self_iff.mpr fun c mem => bne_iff_ne.mpr (e.plain named c mem).1
  have letters : ∀ rest, (Entry.letter e.read 0x72 :: rest).dropWhile Hawkeye.isspace =
      Entry.letter e.read 0x72 :: rest := by
    intro rest
    rw [List.dropWhile_cons]
    cases e.read <;> rfl
  rw [parseLine, string, internalParseLine, Entry.text, parseAddresses_print]
  change (parsePermissions ((Entry.letter e.read 0x72 :: _).dropWhile Hawkeye.isspace)).bind _ = _
  rw [letters, parsePermissions_print]
  change (parseOffset _).bind _ = _
  rw [parseOffset_print]
  change (skipDevice _).bind _ = _
  rw [skipDevice_print]
  change some (MapInfo.mk _ _ _ (deviceFlags (List.dropWhile _ (0x20 :: _)) _)
    (List.dropWhile _ (0x20 :: _))) = _
  rw [List.dropWhile_cons_of_pos rfl, dropWhile_pad named]
  rfl

/-! ## A lookup -/

/-- Maps in the order of their addresses. -/
structure Ordered (maps : List MapInfo) : Prop where
  nonempty : ∀ m ∈ maps, m.start < m.end_
  order : maps.Pairwise fun m m' => m.end_ ≤ m'.start

theorem Ordered.inOrder (ordered : Ordered maps) :
    BinarySearch.InOrder (fun m : MapInfo => m.start.toNat) (fun m => m.end_.toNat) maps :=
  ⟨fun m mem => Nat.le_of_lt (BitVec.lt_def.mp (ordered.nonempty m mem)),
    ordered.order.imp fun le => BitVec.le_def.mp le⟩

/-- The comparisons of `Find` say how the address stands to a map. -/
theorem compare_eq (ordered : Ordered maps) (pc : BitVec 64) {i : Nat} (inside : i < maps.length) :
    compare maps pc i = BinarySearch.stand maps[i].start.toNat maps[i].end_.toNat pc.toNat := by
  have nonempty := ordered.nonempty _ (List.getElem_mem inside)
  unfold compare BinarySearch.stand
  rw [List.getD_eq_getElem?_getD, List.getElem?_eq_getElem inside, Option.getD_some]
  simp only [BitVec.le_def, BitVec.lt_def] at nonempty ⊢
  split
  · rw [if_neg (by omega), if_pos (by omega)]
  · split
    · rfl
    · rw [if_neg (by omega)]

/-- `Find` over maps in order gives the map that the address is in. -/
theorem find_eq (ordered : Ordered maps) (pc : BitVec 64) :
    find maps pc = maps.find? fun m => m.start ≤ pc ∧ pc < m.end_ :=
  BinarySearch.pick_eq ordered.inOrder fun _ inside => compare_eq ordered pc inside

/-- **The maps of a process, from the file.** The lines of the kernel, in the order of their addresses and
none too long for the buffer, give their maps however the reads cut the file, and `Find` gives for each
address the one map that it is in. -/
theorem find_parse {reads : Nat → Option Nat} (answered : ∀ k, (reads k).isSome)
    (size : buffer.length = bufferSize) {entries : List Entry} (named : ∀ e ∈ entries, e.Named)
    (fits : ∀ e ∈ entries, short e.text) (ordered : Ordered (entries.map Entry.mapInfo)) :
    parse reads buffer (some (unlines (entries.map Entry.text))) = (true, entries.map Entry.mapInfo) ∧
    ∀ pc, find (parse reads buffer (some (unlines (entries.map Entry.text)))).2 pc =
      (entries.find? fun e => e.start ≤ pc ∧ pc < e.end_).map Entry.mapInfo := by
  have whole : ∀ l ∈ entries.map Entry.text, 0x0a ∉ l := by
    intro l mem
    obtain ⟨e, listed, rfl⟩ := List.mem_map.mp mem
    exact fun end' => (e.plain (named e listed) _ end').2 rfl
  have all : (entries.map Entry.text).takeWhile short = entries.map Entry.text :=
    List.takeWhile_eq_self_iff.mpr fun l mem => by
      obtain ⟨e, listed, rfl⟩ := List.mem_map.mp mem
      exact fits e listed
  have lines : (entries.map Entry.text).filterMap parseLine = entries.map Entry.mapInfo := by
    rw [List.filterMap_map, ← List.filterMap_eq_map]
    exact List.filterMap_congr fun e mem => parseLine_text (named e mem)
  have good := (@parseLoop_eq buffer [] _ (entries.map Entry.text)
    ((unlines (entries.map Entry.text)).length + 1) 0 [] reads 0 answered whole List.not_mem_nil
    (unscanned_start size (List.append_nil _).symm) (Nat.lt_succ_self _)).1
  rw [all] at good
  have parsed : parse reads buffer (some (unlines (entries.map Entry.text))) =
      (true, entries.map Entry.mapInfo) := by
    rw [parse, good fun l mem => ?_, lines, List.nil_append]
    obtain ⟨e, listed, rfl⟩ := List.mem_map.mp mem
    rw [parseLine_text (named e listed)]
    rfl
  refine ⟨parsed, fun pc => ?_⟩
  rw [parsed, find_eq ordered, List.find?_map]
  rfl

/-- The code of a library and a page without a name. -/
def twoEntries : List Entry :=
  [⟨0x1000, 0x3000, true, false, true, false, 0x1000, 0xfd, 1, 42, 17, [0x2f, 0x61, 0x2e, 0x73, 0x6f]⟩,
    ⟨0x3000, 0x4000, true, true, false, false, 0, 0, 0, 0, 0, []⟩]

/-- Ten bytes at a time. -/
theorem find_parse_twoEntries :
    (find (parse (fun _ => some 9) (List.replicate bufferSize 0) (some (unlines (twoEntries.map Entry.text)))).2
      0x3000).map MapInfo.start = some 0x3000 := by
  have named : ∀ e ∈ twoEntries, e.Named := by
    intro e mem
    rcases List.mem_pair.mp mem with rfl | rfl <;>
      exact ⟨by decide, by decide, by rintro c ⟨⟩ <;> rfl⟩
  have answers := (@find_parse (List.replicate bufferSize 0) (fun _ => some 9) (fun _ => Option.isSome_some)
    List.length_replicate twoEntries named (by decide) ⟨by decide, by decide⟩).2
  exact congrArg _ (answers 0x3000)

end Dolin.Unwindstack.Maps
