import Dolin.Hawkeye.Sections
import Mathlib.Data.Nat.Digits.Defs

/-!
# Sections of a report, native and Java

What both functions are meant to list are the non-blank lines of the file. The Java one lists them.
The native one lists the non-blank pieces of at most 511 bytes: it says the same where the non-blank
bytes of a line lie in one piece, and else it says a line of the file in several lines and counts
them all.
-/

namespace Dolin.Hawkeye

open Region Daemon Lines

/-- Printable ASCII, spaces, tabs and newlines. -/
def Printable (text : Bytes) : Prop := ∀ b ∈ text, b = 0x09 ∨ b = 0x0a ∨ (0x20 ≤ b ∧ b ≤ 0x7e)

instance (text : Bytes) : Decidable (Printable text) := List.decidableBAll _ text

/-- The lines of a file. -/
def fileLines (text : Bytes) : List Bytes := text.splitOnP (· == 0x0a)

/-- The non-blank lines, trimmed. -/
def records (text : Bytes) : List Bytes := (fileLines text).flatMap (clean isspace)

/-- A record with its indentation. -/
def indent (r : Bytes) : Bytes := ascii "  ".toList ++ r

/-- The line that says how many records there are. -/
def numberOfRecords (n : Nat) : Bytes :=
  ascii "  (number of records: ".toList ++ ascii (Nat.toDigits 10 n) ++ ascii [')']

/-- The lines of a section: the first `limit` records, all where `limit` is 0, then the dots and the
number of records where there are more than `limit` and it is not 0. -/
def listing (rs : List Bytes) (limit : Nat) : List Bytes :=
  (if limit = 0 then rs else rs.take limit).map indent ++
    (if 0 < limit ∧ limit < rs.length then [ascii "  ......".toList, numberOfRecords rs.length]
    else [])

/-- Every line with a newline behind it. -/
def unlines (ls : List Bytes) : Bytes := ls.flatMap (· ++ [0x0a])

/-- Both functions say the listing of the non-blank lines, and `RecordNewline` cuts none of its
lines. -/
structure SectionsAgree (abi : Abi) (text title : Bytes) (limit : Nat) : Prop where
  native : getSubSection abi (some text) title limit =
    title :: (listing (records text) limit ++ [ascii ['-']])
  uncut : ∀ line ∈ listing (records text) limit, printed (some line) = some line
  java : getFileContent (some text) (Int32.ofNat limit) = unlines (listing (records text) limit)

/-! ## The native section -/

/-- What the native section keeps of a file. -/
def nativeRecords (text : Bytes) : List Bytes :=
  (fgets 512 text).flatMap fun line => clean isspace (cstring line)

theorem clean_cstring (line : Bytes) :
    clean isspace (cstring line) = if 0 < (trim line).length then [trim line] else [] := by
  rw [clean]
  change (if trim line = [] then [] else [trim line]) = _
  simp only [List.length_pos_iff, ne_eq, ite_not]

theorem subSectionLoop_eq (abi : Abi) (limit : Nat) (lines : List Bytes) (n : Nat) :
    subSectionLoop abi limit lines n =
      Prod.map (List.map indent) id
        (counted (fun n => abi.wrap (n + 1)) (fun n => limit = 0 ∨ n ≤ limit)
          (lines.flatMap fun line => clean isspace (cstring line)) n) := by
  induction lines generalizing n with
  | nil => rfl
  | cons line lines ih =>
    rw [List.flatMap_cons, clean_cstring]
    simp only [subSectionLoop]
    split
    · rw [List.singleton_append, counted, ih]
      by_cases shown : limit = 0 ∨ abi.wrap (n + 1) ≤ limit
      · rw [if_pos shown, if_pos (decide_eq_true shown)]
        rfl
      · rw [if_neg shown, if_neg (by simpa using shown)]
    · rw [List.nil_append, ih]

/-- **What `GetSubSection` records**: the listing of its pieces. -/
theorem getSubSection_eq (abi : Abi) {text : Bytes} (title : Bytes) {limit : Nat}
    (fits : limit = 0 ∨ (nativeRecords text).length < abi.modulus) :
    getSubSection abi (some text) title limit =
      title :: (listing (nativeRecords text) limit ++ [ascii ['-']]) := by
  have kept : ((fgets 512 text).flatMap fun line => clean isspace (cstring line)) =
    nativeRecords text := rfl
  simp only [getSubSection, subSectionLoop_eq, kept, listing, numberOfRecords, Prod.map_fst,
    Prod.map_snd, id]
  by_cases zero : limit = 0
  · rw [if_neg (by omega), if_pos zero, if_neg (by omega),
      counted_all (by simp only [zero, true_or, decide_true, implies_true])]
  · have loop : counted (fun n => abi.wrap (n + 1)) (fun n => limit = 0 ∨ n ≤ limit)
        (nativeRecords text) 0 =
          ((nativeRecords text).take (limit - 0), 0 + (nativeRecords text).length) := by
      refine counted_take id (abi.modulus - 1) (fun k low => ?_) (by simp [zero]) (by omega)
      exact Abi.wrap_of_lt (show k + 1 < abi.modulus by omega)
    rw [Nat.sub_zero, Nat.zero_add] at loop
    rw [if_neg zero, loop]

/-! ## The Java section -/

theorem readLines_cons {c : UInt8} (other : c ≠ 0x0d) (line rest : Bytes) :
    readLines line (c :: rest) =
      if c = 0x0a then line :: readLines [] rest else readLines (line ++ [c]) rest := by
  cases rest <;> simp [readLines, other]

theorem readLines_line {l : Bytes} (whole : 0x0a ∉ l) (plain : 0x0d ∉ l) (line rest : Bytes) :
    readLines line (l ++ 0x0a :: rest) = (line ++ l) :: readLines [] rest := by
  induction l generalizing line with
  | nil => rw [List.nil_append, readLines_cons (by simp), if_pos rfl, List.append_nil]
  | cons c l ih =>
    obtain ⟨newline, whole⟩ := List.ne_and_not_mem_of_not_mem_cons whole
    obtain ⟨return_, plain⟩ := List.ne_and_not_mem_of_not_mem_cons plain
    rw [List.cons_append, readLines_cons return_.symm, if_neg newline.symm, ih whole plain,
      List.append_assoc, List.singleton_append]

theorem readLines_last {l : Bytes} (whole : 0x0a ∉ l) (plain : 0x0d ∉ l) (line : Bytes) :
    readLines line l = if line ++ l = [] then [] else [line ++ l] := by
  induction l generalizing line with
  | nil => rw [readLines, List.append_nil]
  | cons c l ih =>
    obtain ⟨newline, whole⟩ := List.ne_and_not_mem_of_not_mem_cons whole
    obtain ⟨return_, plain⟩ := List.ne_and_not_mem_of_not_mem_cons plain
    rw [readLines_cons return_.symm, if_neg newline.symm, ih whole plain, List.append_assoc,
      List.singleton_append]

/-- The lines that Java reads are the file's, up to an empty one at the end. -/
theorem clean_readLines {text : Bytes} (plain : 0x0d ∉ text) (space : UInt8 → Bool) :
    (readLines [] text).flatMap (clean space) = (fileLines text).flatMap (clean space) := by
  unfold fileLines
  induction text using line_induction (0x0a : UInt8) with
  | last line whole =>
    rw [readLines_last whole plain, splitOnP_last whole, List.nil_append]
    split
    · rw [‹line = []›]
      rfl
    · rfl
  | line line rest whole ih =>
    rw [readLines_line whole (fun mem => plain (List.mem_append_left _ mem)), splitOnP_line whole,
      List.flatMap_cons, List.flatMap_cons, List.nil_append,
      ih fun mem => plain (List.mem_append_right _ (List.mem_cons_of_mem _ mem))]

theorem clean_java (line : Bytes) :
    clean (· ≤ 0x20) line = if 0 < (javaTrim line).length then [javaTrim line] else [] := by
  rw [clean]
  change (if javaTrim line = [] then [] else [javaTrim line]) = _
  simp only [List.length_pos_iff, ne_eq, ite_not]

theorem fileContentLoop_eq (limit : Int32) (lines : List Bytes) (n : Int32) :
    fileContentLoop limit lines n =
      Prod.map (fun rs => unlines (rs.map indent)) id
        (counted (· + 1) (fun n => limit = 0 ∨ n ≤ limit) (lines.flatMap (clean (· ≤ 0x20))) n) := by
  induction lines generalizing n with
  | nil => rfl
  | cons line lines ih =>
    rw [List.flatMap_cons, clean_java]
    simp only [fileContentLoop]
    split
    · rw [List.singleton_append, counted, ih]
      by_cases shown : limit = 0 ∨ n + 1 ≤ limit
      · rw [if_pos shown, if_pos (decide_eq_true shown)]
        rfl
      · rw [if_neg shown, if_neg (by simpa using shown)]
    · rw [List.nil_append, ih]

/-- A count that fits an `int`. -/
theorem toInt_ofNat_small {n : Nat} (small : n < 2 ^ 31) : (Int32.ofNat n).toInt = n :=
  Int32.toInt_ofNat_of_lt small

theorem ofNat_le_iff {m n : Nat} (hm : m < 2 ^ 31) (hn : n < 2 ^ 31) :
    Int32.ofNat m ≤ Int32.ofNat n ↔ m ≤ n := by
  rw [Int32.le_iff_toInt_le, toInt_ofNat_small hm, toInt_ofNat_small hn, Int.ofNat_le]

theorem ofNat_lt_iff {m n : Nat} (hm : m < 2 ^ 31) (hn : n < 2 ^ 31) :
    Int32.ofNat m < Int32.ofNat n ↔ m < n := by
  rw [Int32.lt_iff_toInt_lt, toInt_ofNat_small hm, toInt_ofNat_small hn, Int.ofNat_lt]

theorem ofNat_eq_zero_iff {n : Nat} (small : n < 2 ^ 31) : Int32.ofNat n = 0 ↔ n = 0 := by
  rw [← Int32.toInt_inj, toInt_ofNat_small small, Int32.toInt_zero, Int.natCast_eq_zero]

theorem appendInt_ofNat {n : Nat} (small : n < 2 ^ 31) :
    appendInt (Int32.ofNat n) = ascii (Nat.toDigits 10 n) := by
  have nonneg : ¬ Int32.ofNat n < 0 := by
    rw [Int32.lt_iff_toInt_lt, toInt_ofNat_small small, Int32.toInt_zero]
    omega
  simp only [appendInt, if_neg nonneg, toInt_ofNat_small small, Int.natAbs_natCast]

theorem unlines_append (ls ms : List Bytes) : unlines (ls ++ ms) = unlines ls ++ unlines ms :=
  List.flatMap_append

/-- **What `getFileContent` returns**: the listing of its lines. -/
theorem getFileContent_eq {text : Bytes} {limit : Nat} (small : limit < 2 ^ 31) {rs : List Bytes}
    (kept : (readLines [] text).flatMap (clean (· ≤ 0x20)) = rs)
    (fits : limit = 0 ∨ rs.length < 2 ^ 31) :
    getFileContent (some text) (Int32.ofNat limit) = unlines (listing rs limit) := by
  simp only [getFileContent, fileContentLoop_eq, kept, listing, unlines_append, Prod.map_fst,
    Prod.map_snd, id]
  by_cases zero : limit = 0
  · subst zero
    have all : (counted (· + 1) (fun n => Int32.ofNat 0 = 0 ∨ n ≤ Int32.ofNat 0) rs 0).1 = rs := by
      refine counted_all (fun n => ?_) rs 0
      exact decide_eq_true (Or.inl rfl)
    rw [if_neg (by simp), if_pos rfl, if_neg (by omega), all]
    rfl
  · have count : rs.length < 2 ^ 31 := by omega
    have pos : (0 : Int32) < Int32.ofNat limit ↔ 0 < limit := ofNat_lt_iff (Nat.two_pow_pos 31) small
    have loop : counted (· + 1) (fun n => Int32.ofNat limit = 0 ∨ n ≤ Int32.ofNat limit) rs 0 =
        (rs.take (limit - 0), Int32.ofNat (0 + rs.length)) := by
      change counted _ _ rs (Int32.ofNat 0) = _
      refine counted_take Int32.ofNat (2 ^ 31 - 1) (fun k _ => ?_) (fun k low => ?_) ?_
      · exact (Int32.ofNat_add k 1).symm
      · rw [decide_eq_true_iff, ofNat_eq_zero_iff small, ofNat_le_iff (by omega) small]
        omega
      · exact (Nat.zero_add _).trans_le (Nat.le_pred_of_lt count)
    rw [Nat.sub_zero, Nat.zero_add] at loop
    rw [if_neg zero, loop]
    simp only [pos, ofNat_lt_iff small count, appendInt_ofNat count]
    congr 1
    by_cases more : 0 < limit ∧ limit < rs.length
    · rw [if_pos more, if_pos more]
      simp only [unlines, List.flatMap_cons, List.flatMap_nil, List.append_nil, numberOfRecords,
        List.append_assoc]
    · rw [if_neg more, if_neg more]
      rfl

/-! ## The records of both -/

theorem Printable.nul_free {text : Bytes} (p : Printable text) : 0 ∉ text := by
  intro mem
  have := p 0 mem
  revert this
  decide

theorem Printable.plain {text : Bytes} (p : Printable text) : 0x0d ∉ text := by
  intro mem
  have := p 0x0d mem
  revert this
  decide

/-- On such a text Java trims what `Trim` trims. -/
theorem Printable.space_eq {text : Bytes} (p : Printable text) :
    ∀ b ∈ text, isspace b = decide (b ≤ 0x20) := by
  intro b mem
  rcases p b mem with rfl | rfl | ⟨low, high⟩
  · rfl
  · rfl
  · rw [UInt8.le_iff_toNat_le] at low high
    have eq : b = 0x20 ↔ b ≤ 0x20 := by
      rw [← UInt8.toNat_inj, UInt8.le_iff_toNat_le]
      exact ⟨Nat.le_of_eq, fun le => Nat.le_antisymm le low⟩
    have above : ¬ b ≤ 0x0d := by
      rw [UInt8.le_iff_toNat_le]
      intro le
      exact absurd (low.trans le) (by simp)
    simp only [isspace, decide_eq_false above, Bool.and_false, Bool.or_false, ← eq]
    rfl

/-- **Java keeps the non-blank lines.** -/
theorem javaRecords_eq {text : Bytes} (p : Printable text) :
    (readLines [] text).flatMap (clean (· ≤ 0x20)) = records text := by
  rw [clean_readLines p.plain, records]
  refine List.flatMap_congr fun line mem => ?_
  rw [clean, clean, trim_congr]
  intro b mem'
  exact (p.space_eq b ((of_mem_lines mem).2 mem')).symm

theorem nativeRecords_pieces {text : Bytes} (free : 0 ∉ text) :
    nativeRecords text = (fgets 512 text).flatMap (clean isspace) := by
  refine List.flatMap_congr fun piece mem => ?_
  have sub : piece ⊆ text := by
    intro b mem'
    have := List.mem_flatten.mpr ⟨piece, mem, mem'⟩
    rwa [fgets, flatten_pieces] at this
  rw [cstring_of_nul_free fun mem' => free (sub mem')]

/-- **The native section keeps the non-blank pieces** of the lines. -/
theorem nativeRecords_eq {text : Bytes} (free : 0 ∉ text) :
    nativeRecords text = (fileLines text).flatMap fun line =>
      (fgets 512 line).flatMap (clean isspace) :=
  (nativeRecords_pieces free).trans (clean_pieces (show isspace 0x0a = true from rfl) text)

/-- A line is kept at least once. -/
theorem length_clean_le_pieces (line : Bytes) :
    (clean isspace line).length ≤ ((fgets 512 line).flatMap (clean isspace)).length := by
  have := length_clean_flatten_le isspace (fgets 512 line)
  rwa [fgets, flatten_pieces, List.nil_append] at this

/-- Where the non-blank bytes of each line lie in one piece, the native section keeps the lines. -/
theorem nativeRecords_of_together {text : Bytes} (free : 0 ∉ text)
    (together : ∀ line ∈ fileLines text, Together isspace 511 line) :
    nativeRecords text = records text := by
  rw [nativeRecords_eq free, records]
  refine List.flatMap_congr fun line mem => ?_
  have one := (together_iff (of_mem_lines mem).1).mp (together line mem)
  have whole := clean_flatten one
  rwa [flatten_pieces, List.nil_append] at whole

/-- Else it keeps more. -/
theorem together_of_length_eq {text : Bytes} (free : 0 ∉ text)
    (same : (nativeRecords text).length = (records text).length) :
    ∀ line ∈ fileLines text, Together isspace 511 line := by
  intro line mem
  rw [nativeRecords_eq free, records] at same
  have kept := length_eq_of_flatMap (fun line _ => length_clean_le_pieces line) same.symm line mem
  have one := length_clean_le isspace line
  exact (together_iff (of_mem_lines mem).1).mpr (kept ▸ one)

theorem length_nativeRecords_le {text : Bytes} (free : 0 ∉ text) :
    (nativeRecords text).length ≤ text.length := by
  have kept := length_flatMap_clean_le isspace (fgets 512 text)
  rwa [← nativeRecords_pieces free, fgets, flatten_pieces, List.nil_append] at kept

/-- A record of the native section has at most 511 bytes. -/
theorem length_nativeRecord_le {text r : Bytes} (mem : r ∈ nativeRecords text) : r.length ≤ 511 := by
  obtain ⟨piece, mem', kept⟩ := List.mem_flatMap.mp mem
  have short := length_piece_le (Nat.le_of_eq (Nat.zero_add 510)) piece mem'
  rw [clean] at kept
  split at kept
  · cases kept
  · rw [List.mem_singleton] at kept
    rw [kept]
    exact ((trim_sublist _).length_le.trans (cstring_prefix_self piece).length_le).trans short

/-! ## The listing -/

/-- The digits of a number as characters again. -/
theorem map_ascii_digits (n : Nat) :
    (ascii (Nat.toDigits 10 n)).map (fun b => Char.ofNat b.toNat) = Nat.toDigits 10 n := by
  rw [ascii, List.map_map]
  refine (List.map_congr_left fun c mem => ?_).trans (List.map_id _)
  have digit := Nat.isDigit_of_mem_toDigits (by simp) (by simp) mem
  simp only [Char.isDigit, Bool.and_eq_true, decide_eq_true_eq] at digit
  have high : c.toNat ≤ 57 := digit.2
  rw [Function.comp_apply, UInt8.toNat_ofNat', Nat.mod_eq_of_lt (by omega), Char.ofNat_toNat, id]

theorem ascii_digits_inj {m n : Nat} (eq : ascii (Nat.toDigits 10 m) = ascii (Nat.toDigits 10 n)) :
    m = n := by
  have := congrArg (List.map fun b => Char.ofNat b.toNat) eq
  rw [map_ascii_digits, map_ascii_digits] at this
  rw [← Nat.ofDigitChars_ten_toDigits (n := m), this, Nat.ofDigitChars_ten_toDigits]

theorem numberOfRecords_inj {m n : Nat} (eq : numberOfRecords m = numberOfRecords n) : m = n := by
  rw [numberOfRecords, numberOfRecords, List.append_left_inj, List.append_right_inj] at eq
  exact ascii_digits_inj eq

/-- A listing tells how many records there are. -/
theorem length_eq_of_listing_eq {rs rs' : List Bytes} {limit : Nat}
    (eq : listing rs limit = listing rs' limit) : rs.length = rs'.length := by
  have lengths := congrArg List.length eq
  unfold listing at eq lengths
  by_cases zero : limit = 0
  · simpa [zero] using lengths
  · by_cases more : limit < rs.length <;> by_cases more' : limit < rs'.length
    · have last := congrArg List.getLast? eq
      simp [zero, more, more', Nat.pos_of_ne_zero zero] at last
      exact numberOfRecords_inj last
    all_goals
      simp [zero, more, more', Nat.pos_of_ne_zero zero] at lengths
      omega

theorem printed_eq_self {t : Bytes} (nonempty : t ≠ []) (short : t.length ≤ 1023) :
    printed (some t) = some t := by
  cases t with
  | nil => exact absurd rfl nonempty
  | cons b t => exact congrArg some (List.take_of_length_le short)

/-- `RecordNewline` has room for every line of a listing of short records. -/
theorem printed_listing {rs : List Bytes} {limit : Nat} (short : ∀ r ∈ rs, r.length ≤ 511)
    (fits : limit = 0 ∨ rs.length < 2 ^ 31) :
    ∀ line ∈ listing rs limit, printed (some line) = some line := by
  intro line mem
  rw [listing, List.mem_append] at mem
  rcases mem with mem | mem
  · obtain ⟨r, mem', rfl⟩ := List.mem_map.mp mem
    have : r ∈ rs := by
      split at mem'
      · exact mem'
      · exact List.mem_of_mem_take mem'
    have := short r this
    have length : (indent r).length = r.length + 2 := by
      rw [indent, List.length_append, Nat.add_comm]
      rfl
    exact printed_eq_self (List.ne_nil_of_length_pos (by omega)) (by omega)
  · split at mem
    · simp only [List.mem_cons, List.not_mem_nil, or_false] at mem
      rcases mem with rfl | rfl
      · rfl
      · have digits := (Nat.length_toDigits_le_iff (b := 10) (by simp) (k := 10) (by simp)).mpr
          (show rs.length < 10 ^ 10 by omega)
        have length : (numberOfRecords rs.length).length =
            22 + (Nat.toDigits 10 rs.length).length + 1 := by
          rw [numberOfRecords, List.length_append, List.length_append, ascii, ascii, List.length_map,
            List.length_map]
          rfl
        exact printed_eq_self (List.ne_nil_of_length_pos (by omega)) (by omega)
    · cases mem

/-! ## The two sections -/

theorem sectionsAgree_of_together (abi : Abi) {text : Bytes} (printable : Printable text)
    (title : Bytes) {limit : Nat} (small : limit < 2 ^ 31)
    (together : ∀ line ∈ fileLines text, Together isspace 511 line)
    (fits : limit = 0 ∨ (records text).length < 2 ^ 31) : SectionsAgree abi text title limit := by
  have kept := nativeRecords_of_together printable.nul_free together
  have modulus := abi.two_pow_32_le_modulus
  refine ⟨?_, ?_, getFileContent_eq small (javaRecords_eq printable) fits⟩
  · rw [← kept] at fits ⊢
    exact getSubSection_eq abi title (by omega)
  · refine printed_listing (fun r mem => ?_) fits
    exact length_nativeRecord_le (kept ▸ mem)

theorem together_of_sectionsAgree {abi : Abi} {text : Bytes} (printable : Printable text)
    {title : Bytes} {limit : Nat} (fits : limit = 0 ∨ text.length < 2 ^ 31)
    (agree : SectionsAgree abi text title limit) :
    ∀ line ∈ fileLines text, Together isspace 511 line := by
  have modulus := abi.two_pow_32_le_modulus
  have count := length_nativeRecords_le printable.nul_free
  have native := agree.native
  rw [getSubSection_eq abi title (by omega), List.cons_inj_right, List.append_left_inj] at native
  exact together_of_length_eq printable.nul_free (length_eq_of_listing_eq native)

/-- **When the native and the Java section agree.** For every file of printable ASCII, spaces, tabs and
newlines and every limit that both can be given: they say the same, the listing of the non-blank
lines, where the non-blank bytes of each line lie in one of its pieces of 511 bytes and Java's `int`
holds the count; and where neither counter can wrap, they do only then. -/
theorem sections_agree_iff (abi : Abi) {text : Bytes} (printable : Printable text) (title : Bytes)
    {limit : Nat} (small : limit < 2 ^ 31) :
    ((∀ line ∈ fileLines text, Together isspace 511 line) ∧
        (limit = 0 ∨ (records text).length < 2 ^ 31) → SectionsAgree abi text title limit) ∧
      (limit = 0 ∨ text.length < 2 ^ 31 →
        (SectionsAgree abi text title limit ↔
          ∀ line ∈ fileLines text, Together isspace 511 line)) := by
  refine ⟨fun h => sectionsAgree_of_together abi printable title small h.1 h.2, fun fits => ?_⟩
  refine ⟨together_of_sectionsAgree printable fits, fun together => ?_⟩
  refine sectionsAgree_of_together abi printable title small together ?_
  have count := length_nativeRecords_le printable.nul_free
  rw [nativeRecords_of_together printable.nul_free together] at count
  omega

/-- A file of two lines that are not blank. -/
def twoLines : Bytes := ascii " a b\n\t\nc".toList

/-- They agree on it, with a limit that cuts the second line off. -/
theorem sections_agree_two_lines :
    listing (records twoLines) 1 =
        [ascii "  a b".toList, ascii "  ......".toList,
          ascii "  (number of records: 2)".toList] ∧
      SectionsAgree .ilp32 twoLines (ascii ['t']) 1 := by
  refine ⟨by decide, ((sections_agree_iff .ilp32 (by decide) _ (by simp)).1 ⟨?_, ?_⟩)⟩
  · have short : ∀ line ∈ fileLines twoLines, line.length ≤ 511 := by decide
    exact fun line mem => together_of_length_le (short line mem)
  · exact .inr (by decide)

/-- A line of 512 letters is one record, and the native section makes two of it. -/
theorem sections_differ :
    Printable (List.replicate 512 0x61) ∧
      ¬ SectionsAgree .lp64 (List.replicate 512 0x61) (ascii ['t']) 0 := by
  have printable : Printable (List.replicate 512 0x61) := by
    intro b mem
    rw [List.eq_of_mem_replicate mem]
    decide
  refine ⟨printable, fun agree => ?_⟩
  have free : (0x0a : UInt8) ∉ List.replicate 512 0x61 := by
    intro mem
    exact absurd (List.eq_of_mem_replicate mem) (by simp)
  have together := together_of_sectionsAgree printable (.inl rfl) agree (List.replicate 512 0x61)
    (by rw [fileLines, splitOnP_last free]; exact List.mem_singleton_self _)
  have := together 0 511 0x61 0x61 (List.getElem?_replicate_of_lt (by omega))
    (List.getElem?_replicate_of_lt (by omega)) rfl rfl
  omega

end Dolin.Hawkeye
