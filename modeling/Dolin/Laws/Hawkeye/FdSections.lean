import Dolin.Laws.Hawkeye.Fds

/-!
# The open files of a report, native and Java

Both list at most 1024 descriptors and say how many there are. The native function counts in front of
the line and goes on counting. The Java one counts behind the line, so it lists one more, and where
there is no descriptor it says nothing.
-/

namespace Dolin.Hawkeye

open Region Daemon

/-- The name of a descriptor. -/
def fdName (fd : Nat) : Bytes := ascii (Nat.toDigits 10 fd)

/-- The records of the directory of a process with the descriptors `fds`, in any order. -/
def ListsFds (abi : Abi) (results : List (List Bytes)) (fds : List Nat) : Prop :=
  (results.flatten.map (dName abi)).Perm (ascii ['.'] :: ascii ['.', '.'] :: fds.map fdName)

/-- A line for a descriptor. -/
def isFdLine (line : Bytes) : Bool := (ascii "    fd ".toList).isPrefixOf line

/-- The two sections of a process with `n` descriptors have as many lines for descriptors, at most
1024, both have the dots exactly where there are more, and both say how many there are. -/
structure FdSectionsAgree (native java : List Bytes) (n : Nat) : Prop where
  same : native.countP isFdLine = java.countP isFdLine
  native_le : native.countP isFdLine ≤ 1024
  java_le : java.countP isFdLine ≤ 1024
  native_dots : fdDots ∈ native ↔ 1024 < n
  java_dots : fdDots ∈ java ↔ 1024 < n
  native_total : numberOfFds n ∈ native
  java_total : numberOfFds n ∈ java

/-! ## The descriptors of a directory -/

theorem fdNumber_fdName {fd : Nat} (small : fd < 2 ^ 31) : fdNumber (fdName fd) = some fd := by
  have digits : ∀ c ∈ Nat.toDigits 10 fd, c.isDigit = true := fun c mem =>
    Nat.isDigit_of_mem_toDigits (by simp) (by simp) mem
  have back : chars (fdName fd) = Nat.toDigits 10 fd := map_ascii_digits fd
  obtain ⟨c, rest, eq⟩ := List.exists_cons_of_ne_nil (Nat.toDigits_ne_nil (b := 10) (n := fd))
  have other : c ≠ '-' := by
    intro minus
    have := digits c (eq ▸ List.mem_cons_self)
    rw [minus] at this
    cases this
  have value : decimalInt (chars (fdName fd)) = some (fd : Int) := by
    rw [back, eq, decimalInt_cons other, ← eq, if_pos (List.all_eq_true.mpr digits),
      Nat.ofDigitChars_ten_toDigits]
  rw [fdNumber, value]
  dsimp only
  rw [if_pos (by omega), Int.toNat_natCast]

theorem filterMap_fdName {fds : List Nat} (small : ∀ fd ∈ fds, fd < 2 ^ 31) :
    (fds.map fdName).filterMap fdNumber = fds := by
  induction fds with
  | nil => rfl
  | cons fd fds ih =>
    rw [List.map_cons, List.filterMap_cons_some (fdNumber_fdName (small fd List.mem_cons_self)),
      ih fun f mem => small f (List.mem_cons_of_mem _ mem)]

/-- The walk over the directory counts the descriptors. -/
theorem length_fdsOf {abi : Abi} {results : List (List Bytes)} {fds : List Nat}
    (lists : ListsFds abi results fds) (small : ∀ fd ∈ fds, fd < 2 ^ 31) :
    (fdsOf abi results.flatten).length = fds.length := by
  have numbers := (lists.filterMap fdNumber).length_eq
  have dots : fdNumber (ascii ['.']) = none ∧ fdNumber (ascii ['.', '.']) = none := by decide
  rw [List.filterMap_map, List.filterMap_cons_none dots.1, List.filterMap_cons_none dots.2,
    filterMap_fdName small] at numbers
  exact numbers

theorem isDigitsOnly_fdName (fd : Nat) : isDigitsOnly (fdName fd) = true := by
  have back : chars (fdName fd) = Nat.toDigits 10 fd := map_ascii_digits fd
  rw [isDigitsOnly, back, List.all_eq_true]
  exact fun c mem => Nat.isDigit_of_mem_toDigits (by simp) (by simp) mem

/-! ## The lines -/

theorem isFdLine_fdLine (fdNum : Int32) (path : Bytes) : isFdLine (fdLine fdNum path) = true := by
  rw [isFdLine, List.isPrefixOf_iff_prefix, fdLine, List.append_assoc, List.append_assoc]
  exact List.prefix_append _ _

theorem isFdLine_javaFdLine (readlink : Bytes → Option Bytes) (name : Bytes) :
    isFdLine (javaFdLine readlink name) = true := by
  rw [isFdLine, List.isPrefixOf_iff_prefix, javaFdLine, List.append_assoc, List.append_assoc]
  exact List.prefix_append _ _

theorem isFdLine_dots : isFdLine fdDots = false := by decide

theorem isFdLine_numberOfFds (n : Nat) : isFdLine (numberOfFds n) = false := rfl

theorem numberOfFds_ne_dots (n : Nat) : fdDots ≠ numberOfFds n := by
  intro eq
  have front : ascii "    .".toList = ascii "    (".toList := congrArg (List.take 5) eq
  exact absurd front (by decide)

/-- The loop in Java stops behind 1025 lines. -/
theorem javaFdsLoop_eq (readlink : Bytes → Option Bytes) (fds : List Bytes) {count : Nat}
    (low : count ≤ 1024) :
    javaFdsLoop readlink fds count = (fds.take (1025 - count)).map (javaFdLine readlink) := by
  induction fds generalizing count with
  | nil => rw [javaFdsLoop, List.take_nil, List.map_nil]
  | cons fd fds ih =>
    rw [javaFdsLoop, show 1025 - count = 1024 - count + 1 by omega, List.take_succ_cons, List.map_cons]
    by_cases last : 1024 < count + 1
    · rw [if_pos last, show 1024 - count = 0 by omega, List.take_zero, List.map_nil]
    · rw [if_neg last, ih (by omega), show 1025 - (count + 1) = 1024 - count by omega]

/-- A section: lines for descriptors, then other lines. -/
theorem countP_section {fdLines others : List Bytes} (all : ∀ line ∈ fdLines, isFdLine line = true)
    (none' : ∀ line ∈ others, isFdLine line = false) :
    (fdLines ++ others).countP isFdLine = fdLines.length := by
  rw [List.countP_append, List.countP_eq_length.mpr all, List.countP_eq_zero.mpr, Nat.add_zero]
  intro line mem
  rw [none' line mem]
  exact Bool.false_ne_true

theorem mem_section {fdLines others : List Bytes} (all : ∀ line ∈ fdLines, isFdLine line = true)
    {line : Bytes} (other : isFdLine line = false) : line ∈ fdLines ++ others ↔ line ∈ others := by
  rw [List.mem_append, or_iff_right]
  intro mem
  rw [all line mem] at other
  cases other

/-- The lines behind the descriptors, where there are `n`. -/
def fdsEnd (n : Nat) : List Bytes := (if 1024 < n then [fdDots] else []) ++ [numberOfFds n]

theorem isFdLine_fdsEnd (n : Nat) : ∀ line ∈ fdsEnd n, isFdLine line = false := by
  intro line mem
  rw [fdsEnd, List.mem_append, List.mem_singleton] at mem
  rcases mem with mem | rfl
  · split at mem
    · rw [List.mem_singleton.mp mem]
      exact isFdLine_dots
    · cases mem
  · exact isFdLine_numberOfFds n

theorem fdDots_mem_fdsEnd {n : Nat} : fdDots ∈ fdsEnd n ↔ 1024 < n := by
  rw [fdsEnd, List.mem_append, List.mem_singleton, or_iff_left (numberOfFds_ne_dots n)]
  split
  · simp only [List.mem_singleton, *]
  · simp only [List.not_mem_nil, *]

theorem numberOfFds_mem_fdsEnd (n : Nat) : numberOfFds n ∈ fdsEnd n :=
  List.mem_append_right _ (List.mem_singleton_self _)

/-! ## The sections -/

/-- The native section. -/
theorem getFds_eq {abi : Abi} (readlink : Bytes → Option Target) (pid : Int32)
    {results : List (List Bytes)} (wf : ∀ rs ∈ results, ∀ r ∈ rs, WellFormed abi r) {fds : List Nat}
    (lists : ListsFds abi results fds) (small : ∀ fd ∈ fds, fd < 2 ^ 31) :
    ∃ fdLines : List Bytes, (fds.length < abi.modulus → fdLines.length = min fds.length 1024) ∧
      (∀ line ∈ fdLines, isFdLine line = true) ∧
      getFds abi readlink pid (results.map List.flatten) = some (fdLines ++ fdsEnd (abi.wrap fds.length)) := by
  obtain ⟨s, looped, l⟩ := (listed_nil abi readlink pid).loops wf
  rw [List.nil_append] at l
  have total := l.total
  have recorded := l.recorded
  rw [length_fdsOf lists small] at total recorded
  refine ⟨s.recorded, fun few => ?_, fun line mem => ?_, ?_⟩
  · rw [recorded few, List.length_map, List.length_take, length_fdsOf lists small, Nat.min_comm]
  · obtain ⟨fd, rfl⟩ := l.lines line mem
    exact isFdLine_fdLine _ _
  · rw [getFds, fdLoops, looped, Option.map_some, total, List.append_assoc]
    rfl

/-- The Java section, where there is a descriptor. -/
theorem javaGetFds_eq (readlink : Bytes → Option Bytes) {listing : List Bytes} {fds : List Nat}
    (lists : listing.Perm (fds.map fdName)) (pos : 0 < fds.length) :
    ∃ fdLines : List Bytes, fdLines.length = min fds.length 1025 ∧
      (∀ line ∈ fdLines, isFdLine line = true) ∧
      javaGetFds readlink (some listing) =
        ascii "open file:".toList :: (fdLines ++ (fdsEnd fds.length ++ [[]])) := by
  have kept : listing.filter isDigitsOnly = listing := by
    rw [List.filter_eq_self]
    intro name mem
    obtain ⟨fd, -, rfl⟩ := List.mem_map.mp (lists.mem_iff.mp mem)
    exact isDigitsOnly_fdName fd
  have length : listing.length = fds.length := by
    rw [lists.length_eq, List.length_map]
  refine ⟨(listing.take 1025).map (javaFdLine readlink), ?_, fun line mem => ?_, ?_⟩
  · rw [List.length_map, List.length_take, length, Nat.min_comm]
  · obtain ⟨name, -, rfl⟩ := List.mem_map.mp mem
    exact isFdLine_javaFdLine readlink name
  · simp only [javaGetFds, Option.map_some, kept, length, if_pos pos,
      javaFdsLoop_eq readlink listing (Nat.zero_le 1024), fdsEnd, List.append_assoc,
      List.cons_append, Nat.sub_zero, List.nil_append]

/-- It has up to 1025 lines for descriptors. -/
theorem countP_javaGetFds (readlink : Bytes → Option Bytes) {listing : List Bytes} {fds : List Nat}
    (lists : listing.Perm (fds.map fdName)) (pos : 0 < fds.length) :
    (javaGetFds readlink (some listing)).countP isFdLine = min fds.length 1025 := by
  obtain ⟨fdLines, length, all, java⟩ := javaGetFds_eq readlink lists pos
  rw [java, List.countP_cons_of_neg (by decide), ← length]
  refine countP_section all fun line mem => ?_
  rcases List.mem_append.mp mem with mem | mem
  · exact isFdLine_fdsEnd _ line mem
  · rw [List.mem_singleton.mp mem]
    rfl

/-- **When the native and the Java section agree.** For every list of descriptors, in whatever order and
buffers the directory has them and whatever their targets are: the sections have as many lines for
descriptors, at most 1024, the dots exactly where there are more, and the length of the list, if and
only if there is at least one descriptor and there are at most 1024. -/
theorem fd_sections_agree_iff {abi : Abi} (readlink : Bytes → Option Target)
    (javaReadlink : Bytes → Option Bytes) (pid : Int32) {results : List (List Bytes)}
    (wf : ∀ rs ∈ results, ∀ r ∈ rs, WellFormed abi r) {listing : List Bytes} {fds : List Nat}
    (lists : ListsFds abi results fds) (javaLists : listing.Perm (fds.map fdName))
    (small : ∀ fd ∈ fds, fd < 2 ^ 31) :
    ∃ native, getFds abi readlink pid (results.map List.flatten) = some native ∧
      (FdSectionsAgree native (javaGetFds javaReadlink (some listing)) fds.length ↔
        0 < fds.length ∧ fds.length ≤ 1024) := by
  obtain ⟨fdLines, length, all, native⟩ := getFds_eq readlink pid wf lists small
  refine ⟨_, native, ?_⟩
  by_cases pos : 0 < fds.length
  · obtain ⟨javaLines, -, javaAll, java⟩ := javaGetFds_eq javaReadlink javaLists pos
    have javaCount := countP_javaGetFds javaReadlink javaLists pos
    constructor
    · intro agree
      have := agree.java_le
      rw [javaCount] at this
      exact ⟨pos, by omega⟩
    · intro few
      have counted : fds.length < abi.modulus := by
        have := abi.two_pow_32_le_modulus
        omega
      have length := length counted
      rw [Abi.wrap_of_lt counted]
      have nativeCount := countP_section all (isFdLine_fdsEnd fds.length)
      refine ⟨?_, ?_, ?_, ?_, ?_, ?_, ?_⟩
      · rw [nativeCount, javaCount, length]
        omega
      · rw [nativeCount, length]
        omega
      · rw [javaCount]
        omega
      · rw [mem_section all isFdLine_dots, fdDots_mem_fdsEnd]
      · rw [java, List.mem_cons, or_iff_right (by decide), mem_section javaAll isFdLine_dots,
          List.mem_append, List.mem_singleton, or_iff_left (by decide), fdDots_mem_fdsEnd]
      · exact List.mem_append_right _ (numberOfFds_mem_fdsEnd _)
      · rw [java]
        exact List.mem_cons_of_mem _ (List.mem_append_right _
          (List.mem_append_left _ (numberOfFds_mem_fdsEnd _)))
  · have none' : fds = [] := List.eq_nil_of_length_eq_zero (by omega)
    subst none'
    constructor
    · intro agree
      have total := agree.java_total
      rw [List.map_nil, List.perm_nil] at javaLists
      subst javaLists
      have empty : javaGetFds javaReadlink (some []) = [ascii "open file:".toList, []] := rfl
      rw [empty] at total
      exact absurd total (by decide)
    · intro few
      exact absurd few.1 pos

/-! ## A directory -/

/-- A directory, with a buffer for each record. -/
def directory (abi : Abi) (fds : List Nat) : List (List Bytes) :=
  (ascii ['.'] :: ascii ['.', '.'] :: fds.map fdName).map fun name => [record abi name]

theorem nul_free_fdName (fd : Nat) : 0 ∉ fdName fd := by
  intro mem
  have back : chars (fdName fd) = Nat.toDigits 10 fd := map_ascii_digits fd
  have zero : Char.ofNat 0 ∈ chars (fdName fd) := List.mem_map_of_mem mem
  rw [back] at zero
  exact absurd (Nat.isDigit_of_mem_toDigits (by simp) (by simp) zero) (by simp)

theorem length_fdName_le {fd : Nat} (small : fd < 2 ^ 31) : (fdName fd).length ≤ 10 := by
  rw [fdName, ascii, List.length_map]
  exact (Nat.length_toDigits_le_iff (b := 10) (by simp) (k := 10) (by simp)).mpr (by omega)

theorem record_name (abi : Abi) {name : Bytes} (free : 0 ∉ name) (short : name.length ≤ 10) :
    WellFormed abi (record abi name) ∧ dName abi (record abi name) = name := by
  have head : (List.replicate (reclenOffset abi) (0 : UInt8)).length = reclenOffset abi :=
    List.length_replicate
  have word : (encodeLE 2 (nameOffset abi + name.length + 1)).length = 2 := rfl
  have offsets : reclenOffset abi + 2 ≤ nameOffset abi ∧ nameOffset abi ≤ 19 := by
    cases abi <;> decide
  have fixed : (List.replicate (reclenOffset abi) (0 : UInt8) ++
      encodeLE 2 (nameOffset abi + name.length + 1) ++
      List.replicate (nameOffset abi - reclenOffset abi - 2) 0).length = nameOffset abi := by
    simp only [List.length_append, List.length_replicate, word]
    omega
  have behind : (record abi name).drop (nameOffset abi) = name ++ [0] := by
    rw [record, List.append_assoc _ name, List.drop_append_of_le_length (Nat.le_of_eq fixed.symm),
      List.drop_of_length_le (Nat.le_of_eq fixed), List.nil_append]
  refine ⟨⟨?_, ?_⟩, ?_⟩
  · have length : (record abi name).length = nameOffset abi + name.length + 1 := by
      rw [record, List.length_append, List.length_append, fixed, List.length_singleton]
    rw [length, dReclen, slice, record, List.append_assoc, List.append_assoc, List.append_assoc,
      List.drop_append_of_le_length (Nat.le_of_eq head.symm), List.drop_of_length_le (Nat.le_of_eq head),
      List.nil_append, List.take_append_of_le_length (Nat.le_of_eq word.symm),
      List.take_of_length_le (Nat.le_of_eq word), decodeLE_encodeLE (by omega)]
  · rw [behind]
    exact List.mem_append_right _ (List.mem_singleton_self 0)
  · rw [dName, behind, cstring_append_nul free]

theorem name_of_directory {fds : List Nat} (small : ∀ fd ∈ fds, fd < 2 ^ 31) :
    ∀ name ∈ ascii ['.'] :: ascii ['.', '.'] :: fds.map fdName, 0 ∉ name ∧ name.length ≤ 10 := by
  intro name mem
  rw [List.mem_cons, List.mem_cons] at mem
  rcases mem with rfl | rfl | mem
  · decide
  · decide
  · obtain ⟨fd, mem', rfl⟩ := List.mem_map.mp mem
    exact ⟨nul_free_fdName fd, length_fdName_le (small fd mem')⟩

theorem wellFormed_directory (abi : Abi) {fds : List Nat} (small : ∀ fd ∈ fds, fd < 2 ^ 31) :
    ∀ rs ∈ directory abi fds, ∀ r ∈ rs, WellFormed abi r := by
  intro rs mem r mem'
  obtain ⟨name, named, rfl⟩ := List.mem_map.mp mem
  rw [List.mem_singleton.mp mem']
  obtain ⟨free, short⟩ := name_of_directory small name named
  exact (record_name abi free short).1

theorem listsFds_directory (abi : Abi) {fds : List Nat} (small : ∀ fd ∈ fds, fd < 2 ^ 31) :
    ListsFds abi (directory abi fds) fds := by
  have names : (directory abi fds).flatten.map (dName abi) =
      ascii ['.'] :: ascii ['.', '.'] :: fds.map fdName := by
    rw [directory, ← List.flatMap_def, ← List.map_eq_flatMap, List.map_map]
    refine (List.map_congr_left fun name named => ?_).trans (List.map_id _)
    obtain ⟨free, short⟩ := name_of_directory small name named
    exact (record_name abi free short).2
  rw [ListsFds, names]

/-- A process with the descriptors 0, 1 and 2. -/
theorem fd_sections_agree_three :
    ∃ native, getFds .lp64 (fun _ => none) 7 ((directory .lp64 [0, 1, 2]).map List.flatten) =
        some native ∧
      FdSectionsAgree native (javaGetFds (fun _ => none) (some ([0, 1, 2].map fdName))) 3 := by
  have small : ∀ fd ∈ [0, 1, 2], fd < 2 ^ 31 := by simp
  obtain ⟨native, eq, agree⟩ := fd_sections_agree_iff (fun _ => none) (fun _ => none) 7
    (wellFormed_directory .lp64 small) (listsFds_directory .lp64 small) (.refl _) small
  exact ⟨native, eq, agree.mpr (by simp)⟩

/-- A process with 1025: Java lists them all. -/
theorem fd_sections_differ :
    ListsFds .lp64 (directory .lp64 (List.range 1025)) (List.range 1025) ∧
      ¬ ∃ native, getFds .lp64 (fun _ => none) 7
          ((directory .lp64 (List.range 1025)).map List.flatten) = some native ∧
        FdSectionsAgree native (javaGetFds (fun _ => none) (some ((List.range 1025).map fdName)))
          1025 := by
  have small : ∀ fd ∈ List.range 1025, fd < 2 ^ 31 := by
    intro fd mem
    rw [List.mem_range] at mem
    omega
  have pos : 0 < (List.range 1025).length := by
    rw [List.length_range]
    omega
  refine ⟨listsFds_directory .lp64 small, ?_⟩
  intro ⟨native, eq, agree⟩
  have count := countP_javaGetFds (fun _ => none) (.refl ((List.range 1025).map fdName)) pos
  have := agree.java_le
  rw [count, List.length_range] at this
  omega

end Dolin.Hawkeye
