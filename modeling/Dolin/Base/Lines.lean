import Mathlib.Data.List.DropRight
import Mathlib.Data.List.Flatten

/-!
# Lines read whole, and lines read in pieces

A text is read piece by piece with a buffer: a piece ends behind a separator, or where the buffer is
full. Every piece is trimmed at both ends and dropped where nothing is left. A reader with no bound
does the same with whole lines. The two keep the same where the elements of a line that are no space
all lie in one piece; else the first keeps more.
-/

namespace Lines

variable {α : Type}

section Trim

variable {space : α → Bool}

/-- Without the spaces at both ends. -/
def trim (space : α → Bool) (l : List α) : List α := (l.dropWhile space).rdropWhile space

/-- What is kept of a line or a piece: nothing where it is blank. -/
def clean (space : α → Bool) (l : List α) : List (List α) :=
  if trim space l = [] then [] else [trim space l]

theorem trim_eq_nil_iff {l : List α} : trim space l = [] ↔ ∀ b ∈ l, space b := by
  rw [trim, List.rdropWhile_eq_nil_iff]
  constructor
  · intro all b mem
    rw [← List.takeWhile_append_dropWhile (p := space) (l := l), List.mem_append] at mem
    rcases mem with mem | mem
    · exact List.mem_takeWhile_imp mem
    · exact all b mem
  · intro all b mem
    exact all b ((List.dropWhile_suffix space).subset mem)

theorem trim_blank_append {p : List α} (blank : ∀ b ∈ p, space b) (l : List α) :
    trim space (p ++ l) = trim space l := by
  rw [trim, List.dropWhile_append_of_pos blank, trim]

theorem rdropWhile_append_blank {p : List α} (blank : ∀ b ∈ p, space b) (l : List α) :
    (l ++ p).rdropWhile space = l.rdropWhile space := by
  rw [List.rdropWhile, List.reverse_append, List.dropWhile_append_of_pos, List.rdropWhile]
  intro b mem
  exact blank b (List.mem_reverse.mp mem)

/-- Two texts that end with a run, and a last element before it that the run has none of, agree before
the run and in it. -/
theorem append_run_inj {a b u v : List α} {x y : α} (run : ∀ d ∈ u, space d) (run' : ∀ d ∈ v, space d)
    (stop : space x = false) (stop' : space y = false) (eq : a ++ [x] ++ u = b ++ [y] ++ v) :
    a ++ [x] = b ++ [y] ∧ u = v := by
  have front := congrArg (List.rdropWhile space) eq
  rw [rdropWhile_append_blank run, rdropWhile_append_blank run', List.rdropWhile_concat, stop,
    List.rdropWhile_concat, stop'] at front
  have same : a ++ [x] = b ++ [y] := front
  rw [same, List.append_right_inj] at eq
  exact ⟨same, eq⟩

theorem trim_append_blank {p : List α} (blank : ∀ b ∈ p, space b) (l : List α) :
    trim space (l ++ p) = trim space l := by
  by_cases all : ∀ b ∈ l, space b
  · rw [trim_blank_append all, trim_eq_nil_iff.mpr blank, trim_eq_nil_iff.mpr all]
  · have some : (l.dropWhile space).isEmpty = false := by
      rw [← Bool.not_eq_true, List.isEmpty_iff, List.dropWhile_eq_nil_iff]
      exact all
    rw [trim, List.dropWhile_append, some, if_neg (by simp), rdropWhile_append_blank blank, trim]

theorem trim_congr {q : α → Bool} {l : List α} (same : ∀ b ∈ l, space b = q b) :
    trim space l = trim q l := by
  have front : ∀ m : List α, (∀ b ∈ m, space b = q b) → m.dropWhile space = m.dropWhile q := by
    intro m eq
    induction m with
    | nil => rfl
    | cons b m ih =>
      rw [List.dropWhile_cons, List.dropWhile_cons, eq b List.mem_cons_self,
        ih fun c mem => eq c (List.mem_cons_of_mem _ mem)]
  rw [trim, trim, front l same, List.rdropWhile, List.rdropWhile, front]
  intro b mem
  exact same b ((List.dropWhile_suffix q).subset (List.mem_reverse.mp mem))

theorem trim_sublist (l : List α) : (trim space l).Sublist l :=
  (List.rdropWhile_prefix _ _).sublist.trans (List.dropWhile_suffix space).sublist

theorem clean_of_blank {l : List α} (blank : ∀ b ∈ l, space b) : clean space l = [] :=
  if_pos (trim_eq_nil_iff.mpr blank)

theorem clean_eq_nil_iff {l : List α} : clean space l = [] ↔ ∀ b ∈ l, space b := by
  rw [← trim_eq_nil_iff, clean]
  split
  · simp only [*]
  · simp only [reduceCtorEq, *]

theorem length_clean_le (space : α → Bool) (l : List α) : (clean space l).length ≤ 1 := by
  unfold clean
  split
  · exact Nat.zero_le 1
  · exact Nat.le_refl 1

theorem flatMap_clean_eq_nil_iff {ps : List (List α)} :
    ps.flatMap (clean space) = [] ↔ ∀ b ∈ ps.flatten, space b := by
  simp only [List.flatMap_eq_nil_iff, clean_eq_nil_iff, List.mem_flatten]
  exact ⟨fun h b ⟨p, mem, mem'⟩ => h p mem b mem', fun h p mem b mem' => h b ⟨p, mem, mem'⟩⟩

/-- The pieces keep at least what the line keeps. -/
theorem length_clean_flatten_le (space : α → Bool) (ps : List (List α)) :
    (clean space ps.flatten).length ≤ (ps.flatMap (clean space)).length := by
  by_cases blank : ∀ b ∈ ps.flatten, space b
  · rw [clean_of_blank blank]
    exact Nat.zero_le _
  · have := List.length_pos_of_ne_nil (mt flatMap_clean_eq_nil_iff.mp blank)
    have := length_clean_le space ps.flatten
    omega

/-- No more is kept than there is. -/
theorem length_flatMap_clean_le (space : α → Bool) (ps : List (List α)) :
    (ps.flatMap (clean space)).length ≤ ps.flatten.length := by
  induction ps with
  | nil => exact Nat.le_refl 0
  | cons p ps ih =>
    have first : (clean space p).length ≤ p.length := by
      cases p with
      | nil => exact Nat.le_refl 0
      | cons b p => exact (length_clean_le space _).trans (Nat.succ_le_succ (Nat.zero_le _))
    rw [List.flatMap_cons, List.flatten_cons, List.length_append, List.length_append]
    omega

/-- Where at most one piece is kept, it is what is kept of the line. -/
theorem clean_flatten {ps : List (List α)} (one : (ps.flatMap (clean space)).length ≤ 1) :
    ps.flatMap (clean space) = clean space ps.flatten := by
  induction ps with
  | nil => rfl
  | cons p ps ih =>
    rw [List.flatMap_cons, List.length_append] at one
    rw [List.flatMap_cons, List.flatten_cons]
    by_cases blank : ∀ b ∈ p, space b
    · rw [clean_of_blank blank, List.nil_append, ih (by omega), clean, clean,
        trim_blank_append blank]
    · have first := List.length_pos_of_ne_nil (mt clean_eq_nil_iff.mp blank)
      have others : ps.flatMap (clean space) = [] := List.eq_nil_of_length_eq_zero (by omega)
      rw [others, List.append_nil, clean, clean,
        trim_append_blank (flatMap_clean_eq_nil_iff.mp others)]

end Trim

section Pieces

variable [DecidableEq α] {sep : α} {n : Nat}

/-- The pieces of a text, where `acc` is in the buffer and `room` more elements fit behind the next:
a piece has at most `n + 1`. -/
def pieces (sep : α) (n : Nat) : Nat → List α → List α → List (List α)
  | _, acc, [] => if acc = [] then [] else [acc]
  | room, acc, b :: rest =>
    if b = sep ∨ room = 0 then (acc ++ [b]) :: pieces sep n n [] rest
    else pieces sep n (room - 1) (acc ++ [b]) rest

theorem flatten_pieces (room : Nat) (acc text : List α) :
    (pieces sep n room acc text).flatten = acc ++ text := by
  induction text generalizing room acc with
  | nil =>
    unfold pieces
    split
    · simp only [*, List.flatten_nil, List.append_nil]
    · simp only [List.flatten_cons, List.flatten_nil]
  | cons b rest ih =>
    unfold pieces
    split
    · rw [List.flatten_cons, ih, List.nil_append, List.append_assoc, List.singleton_append]
    · rw [ih, List.append_assoc, List.singleton_append]

/-- No piece is longer than the buffer. -/
theorem length_piece_le {room : Nat} {acc text : List α} (fits : acc.length + room ≤ n) :
    ∀ p ∈ pieces sep n room acc text, p.length ≤ n + 1 := by
  induction text generalizing room acc with
  | nil =>
    intro p mem
    unfold pieces at mem
    split at mem
    · cases mem
    · rw [List.mem_singleton] at mem
      rw [mem]
      omega
  | cons b rest ih =>
    intro p mem
    unfold pieces at mem
    split at mem
    · rw [List.mem_cons] at mem
      rcases mem with rfl | mem
      · rw [List.length_append, List.length_singleton]
        omega
      · exact ih (Nat.le_of_eq (Nat.zero_add n)) p mem
    · have : (acc ++ [b]).length = acc.length + 1 := List.length_append
      exact ih (by omega) p mem

/-- A separator ends a piece. -/
theorem pieces_append_sep (room : Nat) (acc line rest : List α) :
    pieces sep n room acc (line ++ sep :: rest) =
      pieces sep n room acc (line ++ [sep]) ++ pieces sep n n [] rest := by
  induction line generalizing room acc with
  | nil => simp only [List.nil_append, pieces, true_or, if_true, List.cons_append]
  | cons b line ih =>
    rw [List.cons_append, List.cons_append, pieces, pieces]
    split
    · rw [ih, List.cons_append]
    · exact ih _ _

/-- What is kept of a line does not depend on the separator at its end. -/
theorem clean_pieces_sep {space : α → Bool} (blank : space sep) {line : List α} (whole : sep ∉ line)
    (room : Nat) (acc : List α) :
    (pieces sep n room acc (line ++ [sep])).flatMap (clean space) =
      (pieces sep n room acc line).flatMap (clean space) := by
  induction line generalizing room acc with
  | nil =>
    have same : clean space (acc ++ [sep]) = clean space acc := by
      rw [clean, clean, trim_append_blank]
      intro b mem
      rw [List.mem_singleton.mp mem]
      exact blank
    simp only [List.nil_append, pieces, true_or, if_true, List.flatMap_cons, List.flatMap_nil,
      List.append_nil, same]
    split
    · rw [‹acc = []›]
      rfl
    · rw [List.flatMap_cons, List.flatMap_nil, List.append_nil]
  | cons b line ih =>
    rw [List.cons_append, pieces, pieces]
    split
    · rw [List.flatMap_cons, List.flatMap_cons, ih (List.not_mem_of_not_mem_cons whole)]
    · exact ih (List.not_mem_of_not_mem_cons whole) _ _

theorem beq_sep_eq_false {line : List α} (whole : sep ∉ line) : ∀ b ∈ line, (b == sep) = false := by
  intro b mem
  rw [beq_eq_false_iff_ne]
  intro eq
  exact whole (eq ▸ mem)

/-- The first line of a text. -/
theorem splitOnP_line {line : List α} (whole : sep ∉ line) (rest : List α) :
    (line ++ sep :: rest).splitOnP (· == sep) = line :: rest.splitOnP (· == sep) :=
  List.splitOnP_append_cons_of_forall_mem (beq_sep_eq_false whole) sep (beq_self_eq_true sep) rest

/-- A text that is one line. -/
theorem splitOnP_last {line : List α} (whole : sep ∉ line) : line.splitOnP (· == sep) = [line] :=
  List.splitOnP_eq_singleton (beq_sep_eq_false whole)

/-- Induction on the lines of a text: it is one line, or a first line and a text. -/
theorem line_induction (sep : α) {motive : List α → Prop} (last : ∀ line, sep ∉ line → motive line)
    (line : ∀ line rest, sep ∉ line → motive rest → motive (line ++ sep :: rest))
    (text : List α) : motive text := by
  induction length : text.length using Nat.strong_induction_on generalizing text with
  | _ k ih =>
    by_cases mem : sep ∈ text
    · obtain ⟨first, rest, rfl, whole⟩ := List.eq_append_cons_of_mem mem
      have shorter : rest.length < k := by
        rw [List.length_append, List.length_cons] at length
        omega
      exact line first rest whole (ih _ shorter rest rfl)
    · exact last text mem

/-- A line has no separator, and its elements are the text's. -/
theorem of_mem_lines {text line : List α} (mem : line ∈ text.splitOnP (· == sep)) :
    sep ∉ line ∧ line ⊆ text := by
  induction text using line_induction sep with
  | last l whole =>
    rw [splitOnP_last whole, List.mem_singleton] at mem
    rw [mem]
    exact ⟨whole, List.Subset.refl l⟩
  | line l rest whole ih =>
    rw [splitOnP_line whole, List.mem_cons] at mem
    rcases mem with rfl | mem
    · exact ⟨whole, List.subset_append_left _ _⟩
    · obtain ⟨free, sub⟩ := ih mem
      refine ⟨free, fun b mem' => ?_⟩
      exact List.mem_append_right _ (List.mem_cons_of_mem _ (sub mem'))

/-- **The pieces of a text keep what the pieces of its lines keep.** -/
theorem clean_pieces {space : α → Bool} (blank : space sep) (text : List α) :
    (pieces sep n n [] text).flatMap (clean space) =
      (text.splitOnP (· == sep)).flatMap fun line =>
        (pieces sep n n [] line).flatMap (clean space) := by
  induction text using line_induction sep with
  | last line whole => rw [splitOnP_last whole, List.flatMap_cons, List.flatMap_nil, List.append_nil]
  | line line rest whole ih =>
    rw [pieces_append_sep, List.flatMap_append, clean_pieces_sep blank whole, ih,
      splitOnP_line whole, List.flatMap_cons]

/-- The first piece of a line, and the others. -/
theorem pieces_line {line : List α} (whole : sep ∉ line) (room : Nat) (acc : List α)
    (some : acc ++ line ≠ []) :
    pieces sep n room acc line =
      (acc ++ line.take (room + 1)) :: pieces sep n n [] (line.drop (room + 1)) := by
  induction line generalizing room acc with
  | nil =>
    rw [List.append_nil] at some
    simp only [pieces, if_neg some, List.take_nil, List.append_nil, List.drop_nil, if_true]
  | cons b line ih =>
    have other : b ≠ sep := fun eq => whole (eq ▸ List.mem_cons_self)
    cases room with
    | zero =>
      simp only [pieces, or_true, if_true, Nat.zero_add, List.take_succ_cons, List.take_zero,
        List.drop_succ_cons, List.drop_zero]
    | succ room =>
      rw [pieces, if_neg (by simp [other]), Nat.add_sub_cancel,
        ih (List.not_mem_of_not_mem_cons whole) _ _ (by simp), List.take_succ_cons,
        List.drop_succ_cons, List.append_assoc, List.singleton_append]

end Pieces

/-- The elements that are no space lie in one piece of `k`. -/
def Together (space : α → Bool) (k : Nat) (l : List α) : Prop :=
  ∀ i j a b, l[i]? = some a → l[j]? = some b → space a = false → space b = false → i / k = j / k

theorem together_of_length_le {space : α → Bool} {k : Nat} {l : List α} (short : l.length ≤ k) :
    Together space k l := by
  have zero : ∀ {i a}, l[i]? = some a → i / k = 0 := by
    intro i a ha
    exact Nat.div_eq_of_lt ((List.getElem?_eq_some_iff.mp ha).1.trans_le short)
  intro i j a b ha hb _ _
  rw [zero ha, zero hb]

theorem together_drop {space : α → Bool} {n : Nat} {l : List α}
    (blank : ∀ b ∈ l.take (n + 1), space b) :
    Together space (n + 1) l ↔ Together space (n + 1) (l.drop (n + 1)) := by
  constructor
  · intro together i j a b ha hb na nb
    rw [List.getElem?_drop] at ha hb
    have := together _ _ a b ha hb na nb
    rw [Nat.add_div_left _ (Nat.succ_pos n), Nat.add_div_left _ (Nat.succ_pos n)] at this
    exact Nat.succ.inj this
  · intro together
    have behind : ∀ {i a}, l[i]? = some a → space a = false → n + 1 ≤ i := by
      intro i a ha na
      by_contra low
      have mem := List.mem_of_getElem? (List.getElem?_take_of_lt (show i < n + 1 by omega) ▸ ha)
      rw [blank a mem] at na
      cases na
    intro i j a b ha hb na nb
    obtain ⟨i', rfl⟩ := Nat.exists_eq_add_of_le (behind ha na)
    obtain ⟨j', rfl⟩ := Nat.exists_eq_add_of_le (behind hb nb)
    rw [Nat.add_div_left _ (Nat.succ_pos n), Nat.add_div_left _ (Nat.succ_pos n)]
    rw [← List.getElem?_drop] at ha hb
    rw [together i' j' a b ha hb na nb]

theorem together_take {space : α → Bool} {n : Nat} {l : List α}
    (some : ¬ ∀ b ∈ l.take (n + 1), space b) :
    Together space (n + 1) l ↔ ∀ b ∈ l.drop (n + 1), space b := by
  constructor
  · intro together b mem
    by_contra nb
    push Not at some
    obtain ⟨a, mem', na⟩ := some
    obtain ⟨i, ha⟩ := List.mem_iff_getElem?.mp mem'
    obtain ⟨j, hb⟩ := List.mem_iff_getElem?.mp mem
    have low : i < n + 1 := by
      by_contra high
      rw [List.getElem?_take_eq_none (by omega)] at ha
      cases ha
    rw [List.getElem?_take_of_lt low] at ha
    rw [List.getElem?_drop] at hb
    have := together i _ a b ha hb (Bool.not_eq_true _ ▸ na) (Bool.not_eq_true _ ▸ nb)
    rw [Nat.add_div_left _ (Nat.succ_pos n), Nat.div_eq_of_lt low] at this
    cases this
  · intro blank
    have front : ∀ {i a}, l[i]? = .some a → space a = false → i / (n + 1) = 0 := by
      intro i a ha na
      rw [Nat.div_eq_zero_iff_lt (Nat.succ_pos n)]
      by_contra high
      obtain ⟨i', rfl⟩ := Nat.exists_eq_add_of_le (Nat.not_lt.mp high)
      rw [← List.getElem?_drop] at ha
      rw [blank a (List.mem_of_getElem? ha)] at na
      cases na
    intro i j a b ha hb na nb
    rw [front ha na, front hb nb]

/-- **At most one piece of a line is kept** where its elements that are no space lie in one piece. -/
theorem together_iff [DecidableEq α] {space : α → Bool} {sep : α} {n : Nat} {line : List α}
    (whole : sep ∉ line) :
    Together space (n + 1) line ↔ ((pieces sep n n [] line).flatMap (clean space)).length ≤ 1 := by
  induction length : line.length using Nat.strong_induction_on generalizing line with
  | _ k ih =>
    by_cases none : line = []
    · subst none
      constructor
      · intro _
        exact Nat.zero_le 1
      · intro _ i j a b ha
        cases ha
    · have shorter : (line.drop (n + 1)).length < k := by
        have := List.length_pos_of_ne_nil none
        rw [List.length_drop]
        omega
      have rest : sep ∉ line.drop (n + 1) := fun mem => whole (List.mem_of_mem_drop mem)
      rw [pieces_line whole n [] none, List.nil_append, List.flatMap_cons, List.length_append]
      by_cases blank : ∀ b ∈ line.take (n + 1), space b
      · rw [together_drop blank, ih _ shorter rest rfl, clean_of_blank blank, List.length_nil,
          Nat.zero_add]
      · have first := List.length_pos_of_ne_nil (mt clean_eq_nil_iff.mp blank)
        have one := length_clean_le space (line.take (n + 1))
        have others : ((pieces sep n n [] (line.drop (n + 1))).flatMap (clean space)) = [] ↔
            ∀ b ∈ line.drop (n + 1), space b := by
          rw [flatMap_clean_eq_nil_iff, flatten_pieces, List.nil_append]
        rw [together_take blank, ← others, ← List.length_eq_zero_iff]
        omega

/-! ## A listing with a limit -/

section Counted

variable {ν : Type} {succ : ν → ν} {shows : ν → Bool}

/-- A loop that counts every record and lists those at which `shows` holds of the count. -/
def counted (succ : ν → ν) (shows : ν → Bool) : List α → ν → List α × ν
  | [], n => ([], n)
  | r :: rs, n =>
    let rest := counted succ shows rs (succ n)
    (if shows (succ n) then r :: rest.1 else rest.1, rest.2)

theorem counted_all (always : ∀ n, shows n = true) (rs : List α) (n : ν) :
    (counted succ shows rs n).1 = rs := by
  induction rs generalizing n with
  | nil => rfl
  | cons r rs ih => rw [counted, if_pos (always _), ih]

/-- Where the counter does not wrap, the loop lists the first records up to the limit, and counts
all. -/
theorem counted_take (value : Nat → ν) (bound : Nat) {limit : Nat}
    (succ_value : ∀ k < bound, succ (value k) = value (k + 1))
    (shows_value : ∀ k ≤ bound, shows (value k) = true ↔ k ≤ limit) {rs : List α} {n : Nat}
    (fits : n + rs.length ≤ bound) :
    counted succ shows rs (value n) = (rs.take (limit - n), value (n + rs.length)) := by
  induction rs generalizing n with
  | nil => rw [counted, List.take_nil, List.length_nil, Nat.add_zero]
  | cons r rs ih =>
    rw [List.length_cons] at fits
    rw [counted, succ_value n (by omega), ih (by omega), List.length_cons, Nat.add_right_comm,
      Nat.add_assoc]
    by_cases low : n + 1 ≤ limit
    · rw [if_pos ((shows_value (n + 1) (by omega)).mpr low),
        show limit - n = limit - (n + 1) + 1 by omega, List.take_succ_cons]
    · rw [if_neg (mt (shows_value (n + 1) (by omega)).mp low),
        show limit - n = 0 by omega, show limit - (n + 1) = 0 by omega, List.take_zero, List.take_zero]

end Counted

/-- Two ways to expand a list, the one never shorter, that are as long on the whole. -/
theorem length_eq_of_flatMap {β γ : Type} {f : α → List β} {g : α → List γ} {l : List α}
    (le : ∀ a ∈ l, (f a).length ≤ (g a).length)
    (same : (l.flatMap f).length = (l.flatMap g).length) : ∀ a ∈ l, (f a).length = (g a).length := by
  have whole : ∀ m : List α, (∀ a ∈ m, (f a).length ≤ (g a).length) →
      (m.flatMap f).length ≤ (m.flatMap g).length := by
    intro m le'
    induction m with
    | nil => exact Nat.le_refl 0
    | cons a m ih =>
      rw [List.flatMap_cons, List.flatMap_cons, List.length_append, List.length_append]
      exact Nat.add_le_add (le' a List.mem_cons_self) (ih fun b mem => le' b (List.mem_cons_of_mem _ mem))
  induction l with
  | nil =>
    intro a mem
    cases mem
  | cons a l ih =>
    have rest := whole l fun b mem => le b (List.mem_cons_of_mem _ mem)
    have first := le a List.mem_cons_self
    rw [List.flatMap_cons, List.flatMap_cons, List.length_append, List.length_append] at same
    intro b mem
    rw [List.mem_cons] at mem
    rcases mem with rfl | mem
    · omega
    · exact ih (fun c mem' => le c (List.mem_cons_of_mem _ mem')) (by omega) b mem

end Lines
