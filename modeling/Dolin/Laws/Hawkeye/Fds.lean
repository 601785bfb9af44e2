import Dolin.Hawkeye.Fds
import Dolin.Laws.Hawkeye.Report
import Dolin.Laws.Hawkeye.Sections

/-!
# The open files of a report

`Atoi` accepts what it is meant to: `-?[0-9]+` with a value that an `int` holds, whatever the width of
`long`. The walk over the records of a directory comes to each of them once, counts those that name a
descriptor, and records the first 1024 of them.
-/

namespace Dolin.Hawkeye

open Region Daemon

/-! ## Numbers -/

/-- The number that a text of the form `-?[0-9]+` stands for. -/
def decimalInt : List Char → Option Int
  | '-' :: digits =>
    if digits ≠ [] ∧ digits.all Char.isDigit then some (-Nat.ofDigitChars 10 digits 0) else none
  | digits =>
    if digits ≠ [] ∧ digits.all Char.isDigit then some (Nat.ofDigitChars 10 digits 0) else none

/-- The descriptor that a name stands for: a number from 0 to `2 ^ 31 - 1`. -/
def fdNumber (name : Bytes) : Option Nat :=
  match decimalInt (chars name) with
  | none => none
  | some val => if 0 ≤ val ∧ val < 2 ^ 31 then some val.toNat else none

theorem any_not_isDigit (text : List Char) :
    (text.any fun c => !c.isDigit) = !text.all Char.isDigit := List.not_all_eq_any_not.symm

theorem longMax_ge (abi : Abi) : 2 ^ 31 - 1 ≤ longMax abi := by
  have := abi.two_pow_32_le_modulus
  unfold longMax
  omega

theorem longMin_le (abi : Abi) : longMin abi ≤ -2 ^ 31 := by
  have := abi.two_pow_32_le_modulus
  unfold longMin
  omega

/-- What `Atoi` makes of the answer of `strtol`. -/
def atoiAnswer (abi : Abi) (r : Strtol) : Option Int32 :=
  if r.erange ∧ (r.val = longMax abi ∨ r.val = longMin abi) ∨ r.erange ∧ r.val = 0 then none
  else if ¬ r.converted then none
  else if 2 ^ 31 ≤ r.val ∨ r.val < -2 ^ 31 then none
  else some (Int32.ofInt r.val)

/-- Of digits `Atoi` takes those that an `int` holds: a number that does not fit `long` does not fit
`int`. -/
theorem atoiAnswer_strtolDigits (abi : Abi) (sign : Int) {text : List Char} (nonempty : text ≠ [])
    (digits : text.all Char.isDigit) :
    atoiAnswer abi (strtolDigits abi sign text) =
      if -2 ^ 31 ≤ sign * Nat.ofDigitChars 10 text 0 ∧ sign * Nat.ofDigitChars 10 text 0 < 2 ^ 31 then
        some (Int32.ofInt (sign * Nat.ofDigitChars 10 text 0))
      else none := by
  have front : text.takeWhile Char.isDigit = text :=
    List.takeWhile_eq_self_iff.mpr (List.all_eq_true.mp digits)
  have high := longMax_ge abi
  have low := longMin_le abi
  unfold strtolDigits
  rw [if_neg (by rw [front]; exact nonempty), leadingDigits, front]
  generalize sign * (Nat.ofDigitChars 10 text 0 : Int) = val
  dsimp only
  by_cases above : longMax abi < val
  · rw [if_pos above, if_neg (by omega)]
    simp only [atoiAnswer, true_and, true_or, if_true]
  · rw [if_neg above]
    by_cases below : val < longMin abi
    · rw [if_pos below, if_neg (by omega)]
      simp only [atoiAnswer, true_and, or_true, true_or, if_true]
    · rw [if_neg below]
      simp only [atoiAnswer, Bool.false_eq_true, false_and, or_self, if_false, not_true_eq_false]
      by_cases fits : -2 ^ 31 ≤ val ∧ val < 2 ^ 31
      · rw [if_neg (by omega), if_pos fits]
      · rw [if_pos (by omega), if_neg fits]

theorem Atoi_cons (abi : Abi) (c : Char) (rest : List Char) :
    Atoi abi (c :: rest) =
      if ¬ c.isDigit ∧ c ≠ '-' then none
      else if !rest.all Char.isDigit then none
      else atoiAnswer abi (strtol abi (c :: rest)) := by
  rw [← any_not_isDigit]
  rfl

theorem strtol_cons {c : Char} (digit : c.isDigit = true) (abi : Abi) (rest : List Char) :
    strtol abi (c :: rest) = strtolDigits abi 1 (c :: rest) := by
  have front : (c :: rest).dropWhile isSpace = c :: rest :=
    List.dropWhile_cons_of_neg (by rw [isSpace_of_isDigit digit]; exact Bool.false_ne_true)
  unfold strtol
  rw [front]
  split
  next rest' eq =>
    cases eq
    cases digit
  next rest' eq =>
    cases eq
    cases digit
  next => rfl

theorem decimalInt_cons {c : Char} (other : c ≠ '-') (rest : List Char) :
    decimalInt (c :: rest) =
      if (c :: rest).all Char.isDigit then some (Nat.ofDigitChars 10 (c :: rest) 0 : Int)
      else none := by
  unfold decimalInt
  split
  next digits eq =>
    cases eq
    exact absurd rfl other
  next => simp only [ne_eq, reduceCtorEq, not_false_eq_true, true_and]

/-- **What `Atoi` accepts**: `-?[0-9]+`, where an `int` holds it. -/
theorem Atoi_eq (abi : Abi) (str : List Char) :
    Atoi abi str = (decimalInt str).bind fun val =>
      if -2 ^ 31 ≤ val ∧ val < 2 ^ 31 then some (Int32.ofInt val) else none := by
  cases str with
  | nil => rfl
  | cons c rest =>
    rw [Atoi_cons]
    by_cases digits : rest.all Char.isDigit = true
    · rw [if_neg (show ¬ (!rest.all Char.isDigit) = true by rw [digits]; exact Bool.false_ne_true)]
      by_cases minus : c = '-'
      · subst minus
        rw [if_neg (by simp)]
        change atoiAnswer abi (strtolDigits abi (-1) rest) = _
        by_cases none' : rest = []
        · subst none'
          rfl
        · have answer := atoiAnswer_strtolDigits abi (-1) none' digits
          rw [Int.neg_one_mul] at answer
          rw [decimalInt, if_pos ⟨none', digits⟩, Option.bind_some, answer]
      · by_cases digit : c.isDigit = true
        · have all : (c :: rest).all Char.isDigit = true := by rw [List.all_cons, digit, digits]; rfl
          have answer := atoiAnswer_strtolDigits abi 1 (List.cons_ne_nil c rest) all
          rw [Int.one_mul] at answer
          rw [if_neg (fun h => h.1 digit), strtol_cons digit, answer, decimalInt_cons minus, if_pos all,
            Option.bind_some]
        · rw [if_pos ⟨digit, minus⟩, decimalInt_cons minus, if_neg (by simp [digit]), Option.bind_none]
    · have refused : decimalInt (c :: rest) = none := by
        by_cases minus : c = '-'
        · subst minus
          rw [decimalInt, if_neg (fun h => digits h.2)]
        · rw [decimalInt_cons minus, List.all_cons, if_neg]
          intro h
          exact digits (Bool.and_eq_true_iff.mp h).2
      rw [refused, Option.bind_none, if_pos (show (!rest.all Char.isDigit) = true by simpa using digits),
        ite_self]

/-- A text of the form `-?[0-9]+`, and the number it stands for. -/
def DecimalText (text : List Char) (val : Int) : Prop :=
  ∃ digits, digits ≠ [] ∧ (∀ c ∈ digits, c.isDigit) ∧
    (text = digits ∧ val = Nat.ofDigitChars 10 digits 0 ∨
      text = '-' :: digits ∧ val = -Nat.ofDigitChars 10 digits 0)

theorem decimalInt_of_digits {digits : List Char} (nonempty : digits ≠ [])
    (all : ∀ c ∈ digits, c.isDigit) : decimalInt digits = some (Nat.ofDigitChars 10 digits 0 : Int) := by
  cases digits with
  | nil => exact absurd rfl nonempty
  | cons c rest =>
    have other : c ≠ '-' := by
      intro minus
      have digit := all c List.mem_cons_self
      rw [minus] at digit
      cases digit
    rw [decimalInt_cons other, if_pos (List.all_eq_true.mpr all)]

theorem decimalInt_eq_some_iff {text : List Char} {val : Int} :
    decimalInt text = some val ↔ DecimalText text val := by
  constructor
  · intro eq
    unfold decimalInt at eq
    split at eq
    next digits =>
      split at eq
      next form =>
        cases eq
        exact ⟨digits, form.1, List.all_eq_true.mp form.2, .inr ⟨rfl, rfl⟩⟩
      next => cases eq
    next =>
      split at eq
      next form =>
        cases eq
        exact ⟨text, form.1, List.all_eq_true.mp form.2, .inl ⟨rfl, rfl⟩⟩
      next => cases eq
  · rintro ⟨digits, nonempty, all, ⟨rfl, rfl⟩ | ⟨rfl, rfl⟩⟩
    · exact decimalInt_of_digits nonempty all
    · rw [decimalInt, if_pos ⟨nonempty, List.all_eq_true.mpr all⟩]

/-- **`Atoi` takes the decimal texts of `int`s and no others.** With a `long` of either width and for
every string: 0 and the number where the string has the form `-?[0-9]+` and an `int` holds what it stands
for, and else -1 and `i` as it was. -/
theorem atoi_takes_decimal_ints (abi : Abi) (str : Bytes) (i : Int32) :
    (∀ val, DecimalText (chars (cstring str)) val → -2 ^ 31 ≤ val ∧ val < 2 ^ 31 →
        ∃ v : Int32, v.toInt = val ∧ atoiInto abi (chars (cstring str)) i = (0, v)) ∧
      ((¬ ∃ val, DecimalText (chars (cstring str)) val ∧ -2 ^ 31 ≤ val ∧ val < 2 ^ 31) →
        atoiInto abi (chars (cstring str)) i = (-1, i)) := by
  unfold atoiInto
  rw [Atoi_eq]
  constructor
  · intro val form fits
    refine ⟨Int32.ofInt val, Int32.toInt_ofInt_of_le fits.1 fits.2, ?_⟩
    rw [decimalInt_eq_some_iff.mpr form, Option.bind_some, if_pos fits]
  · intro none'
    cases form : decimalInt (chars (cstring str)) with
    | none => rfl
    | some val =>
      have wide : ¬ (-2 ^ 31 ≤ val ∧ val < 2 ^ 31) := fun fits =>
        none' ⟨val, decimalInt_eq_some_iff.mp form, fits⟩
      rw [Option.bind_some, if_neg wide]

/-- No number is empty or begins with a dot. -/
theorem notDecimal_of_skipped {name : List Char} (skip : name = [] ∨ name.take 1 = ['.']) :
    decimalInt name = none := by
  rcases skip with rfl | dot
  · rfl
  · cases name with
    | nil => rfl
    | cons c rest =>
      rw [List.take_succ_cons, List.cons.injEq] at dot
      rw [dot.1, decimalInt_cons (by decide)]
      rfl

/-- A name that `GetFds` counts. -/
theorem fdNumber_eq (abi : Abi) (name : Bytes) :
    (Atoi abi (chars name)).filter (fun fdNum => ¬ fdNum < 0) = (fdNumber name).map Int32.ofNat := by
  rw [Atoi_eq, fdNumber]
  cases decimalInt (chars name) with
  | none => rfl
  | some val =>
    rw [Option.bind_some]
    dsimp only
    by_cases fits : -2 ^ 31 ≤ val ∧ val < 2 ^ 31
    · have back : (Int32.ofInt val).toInt = val := Int32.toInt_ofInt_of_le fits.1 fits.2
      rw [if_pos fits, Option.filter_some]
      by_cases nonneg : 0 ≤ val
      · have kept : ¬ Int32.ofInt val < 0 := by
          rw [Int32.lt_iff_toInt_lt, back, Int32.toInt_zero]
          omega
        rw [if_pos (decide_eq_true kept), if_pos ⟨nonneg, fits.2⟩, Option.map_some,
          ← Int32.ofInt_eq_ofNat, Int.toNat_of_nonneg nonneg]
      · have dropped : Int32.ofInt val < 0 := by
          rw [Int32.lt_iff_toInt_lt, back, Int32.toInt_zero]
          omega
        rw [if_neg (by simpa using dropped), if_neg (fun h => nonneg h.1), Option.map_none]
    · rw [if_neg fits, Option.filter_none, if_neg (by omega), Option.map_none]

/-! ## The records -/

/-- A record that tells its length and covers its name with the zero byte behind it. -/
structure WellFormed (abi : Abi) (r : Bytes) : Prop where
  told : dReclen abi r = r.length
  covers : 0 ∈ r.drop (nameOffset abi)

namespace WellFormed

variable {abi : Abi} {r : Bytes}

theorem nameOffset_lt (wf : WellFormed abi r) : nameOffset abi < r.length := by
  have := List.length_pos_of_mem wf.covers
  rw [List.length_drop] at this
  omega

theorem ne_nil (wf : WellFormed abi r) : r ≠ [] :=
  List.ne_nil_of_length_pos ((Nat.zero_le _).trans_lt wf.nameOffset_lt)

theorem dReclen_append (wf : WellFormed abi r) (rest : Bytes) :
    dReclen abi (r ++ rest) = r.length := by
  have inside : reclenOffset abi + 2 ≤ r.length := by
    have := wf.nameOffset_lt
    cases abi <;> simp only [nameOffset, reclenOffset] at this ⊢ <;> omega
  have := wf.told
  rw [dReclen, slice] at this
  rw [dReclen, slice, List.drop_append_of_le_length (by omega), List.take_append_of_le_length, this]
  rw [List.length_drop]
  omega

theorem dName_append (wf : WellFormed abi r) (rest : Bytes) : dName abi (r ++ rest) = dName abi r := by
  rw [dName, List.drop_append_of_le_length (Nat.le_of_lt wf.nameOffset_lt),
    cstring_append_of_terminated wf.covers, dName]

end WellFormed

section Walk

variable (abi : Abi) (readlink : Bytes → Option Target) (pid : Int32)

/-- The descriptors that records name, in order. -/
def fdsOf (rs : List Bytes) : List Nat := rs.filterMap fun r => fdNumber (dName abi r)

/-- The line of a descriptor, with the first 511 bytes of its target. -/
def fdRecord (fd : Nat) : Bytes :=
  fdLine (Int32.ofNat fd) (match readlink (fdLinkPath pid (Int32.ofNat fd)) with
    | none => ascii "???".toList
    | some target => if target.val = [] then ascii "???".toList else target.val.take 511)

/-- What a record does to the state. -/
def enter (s : FdState) (r : Bytes) : FdState :=
  match fdNumber (dName abi r) with
  | none => { s with visited := s.visited ++ [r] }
  | some fd =>
    { total := abi.wrap (s.total + 1)
      recorded :=
        if 1024 < abi.wrap (s.total + 1) then s.recorded else s.recorded ++ [fdRecord readlink pid fd]
      visited := s.visited ++ [r] }

theorem fdPath_eq (target : Option Target) :
    fdPath target = match target with
      | none => ascii "???".toList
      | some target => if target.val = [] then ascii "???".toList else target.val.take 511 := by
  cases target with
  | none => rfl
  | some target =>
    rw [fdPath]
    dsimp only
    have short : (target.val.take 511).length ≤ 511 := List.length_take_le _ _
    by_cases empty : target.val = []
    · rw [if_pos empty, if_pos (by rw [empty]; exact .inl (Nat.le_refl 0))]
    · have := List.length_pos_of_ne_nil empty
      rw [if_neg empty, if_neg]
      rw [List.length_take] at short ⊢
      omega

/-- **The body of the loop** does with a record what it should. -/
theorem visitEntry_eq {r : Bytes} (wf : WellFormed abi r) (rest : Bytes) (s : FdState) :
    visitEntry abi readlink pid s (r ++ rest) = enter abi readlink pid s r := by
  simp only [visitEntry, enter, wf.dReclen_append, wf.dName_append, List.take_left]
  -- the names that are not given to `Atoi` are no numbers
  have skipped : (dName abi r |> chars) = [] ∨ (dName abi r |> chars).take 1 = ['.'] →
      fdNumber (dName abi r) = none := by
    intro skip
    have := notDecimal_of_skipped skip
    rw [fdNumber, this]
  have counted := fdNumber_eq abi (dName abi r)
  by_cases empty : chars (dName abi r) = []
  · rw [if_pos empty, skipped (.inl empty)]
  · rw [if_neg empty]
    by_cases dot : (chars (dName abi r)).take 1 = ['.']
    · rw [if_pos dot, skipped (.inr dot)]
    · have dots : (chars (dName abi r)).take 2 ≠ ['.', '.'] := by
        intro eq
        have := congrArg (List.take 1) eq
        rw [List.take_take] at this
        exact dot this
      rw [if_neg dot, if_neg dots]
      cases number : Atoi abi (chars (dName abi r)) with
      | none =>
        rw [number, Option.filter_none, eq_comm, Option.map_eq_none_iff] at counted
        rw [counted]
      | some fdNum =>
        dsimp only
        rw [number, Option.filter_some] at counted
        by_cases negative : fdNum < 0
        · rw [if_neg (by simpa using negative), eq_comm, Option.map_eq_none_iff] at counted
          rw [if_pos negative, counted]
        · rw [if_pos (by simpa using negative), eq_comm, Option.map_eq_some_iff] at counted
          obtain ⟨fd, eq, rfl⟩ := counted
          rw [if_neg negative, eq]
          dsimp only
          split
          · rfl
          · rw [fdPath_eq, fdRecord]

theorem length_appendInt_le (n : Int32) : (appendInt n).length ≤ 11 := by
  have bound : n.toInt.natAbs < 10 ^ 10 := by
    have := n.toInt_lt
    have := n.le_toInt
    omega
  have digits := (Nat.length_toDigits_le_iff (b := 10) (by simp) (k := 10) (by simp)).mpr bound
  unfold appendInt
  dsimp only
  split
  · rw [List.length_append, ascii, ascii, List.length_map, List.length_map, List.length_singleton]
    omega
  · rw [ascii, List.length_map]
    omega

/-- `RecordNewline` has room for the line of a descriptor. -/
theorem printed_fdRecord (fd : Nat) :
    printed (some (fdRecord readlink pid fd)) = some (fdRecord readlink pid fd) := by
  have number := length_appendInt_le (Int32.ofNat fd)
  have line : ∀ path : Bytes, path.length ≤ 511 → (fdLine (Int32.ofNat fd) path).length ≤ 531 ∧
      fdLine (Int32.ofNat fd) path ≠ [] := by
    intro path short
    have length : (fdLine (Int32.ofNat fd) path).length =
        7 + (appendInt (Int32.ofNat fd)).length + 2 + path.length := by
      rw [fdLine, List.length_append, List.length_append, List.length_append]
      rfl
    exact ⟨by omega, List.ne_nil_of_length_pos (by omega)⟩
  unfold fdRecord
  refine printed_eq_self (line _ ?_).2 ((line _ ?_).1.trans (by omega))
  all_goals
    split
    · exact Nat.le_of_ble_eq_true rfl
    · split
      · exact Nat.le_of_ble_eq_true rfl
      · exact List.length_take_le _ _

/-- What the loops have done when they have come to the records `done`. -/
structure Listed (done : List Bytes) (s : FdState) : Prop where
  visited : s.visited = done
  total : s.total = abi.wrap (fdsOf abi done).length
  recorded : (fdsOf abi done).length < abi.modulus →
    s.recorded = ((fdsOf abi done).take 1024).map (fdRecord readlink pid)
  lines : ∀ line ∈ s.recorded, ∃ fd, line = fdRecord readlink pid fd

theorem listed_nil : Listed abi readlink pid [] {} where
  visited := rfl
  total := (Nat.zero_mod _).symm
  recorded _ := rfl
  lines _ mem := absurd mem List.not_mem_nil

variable {abi readlink pid}

/-- **One record.** -/
theorem Listed.enter {done : List Bytes} {s : FdState} (l : Listed abi readlink pid done s)
    (r : Bytes) : Listed abi readlink pid (done ++ [r]) (enter abi readlink pid s r) := by
  unfold Hawkeye.enter
  cases number : fdNumber (dName abi r) with
  | none =>
    have same : fdsOf abi (done ++ [r]) = fdsOf abi done := by
      simp only [fdsOf, List.filterMap_append, List.filterMap_cons, number, List.filterMap_nil,
        List.append_nil]
    exact ⟨by rw [l.visited], by rw [same]; exact l.total, by rw [same]; exact l.recorded, l.lines⟩
  | some fd =>
    have more : fdsOf abi (done ++ [r]) = fdsOf abi done ++ [fd] := by
      simp only [fdsOf, List.filterMap_append, List.filterMap_cons, number, List.filterMap_nil]
    have total : abi.wrap (s.total + 1) = abi.wrap (fdsOf abi (done ++ [r])).length := by
      rw [more, List.length_append, l.total, List.length_singleton, Abi.wrap, Abi.wrap, Abi.wrap,
        Nat.mod_add_mod]
    refine ⟨by rw [l.visited], total, fun fits => ?_, fun line mem => ?_⟩
    · dsimp only
      rw [total, Abi.wrap_of_lt fits, more, List.length_append, List.length_singleton, List.take_append,
        l.recorded (by rw [more, List.length_append, List.length_singleton] at fits; omega)]
      by_cases full : 1024 < (fdsOf abi done).length + 1
      · rw [if_pos full, show 1024 - (fdsOf abi done).length = 0 by omega, List.take_zero, List.append_nil]
      · have room : [fd].length ≤ 1024 - (fdsOf abi done).length := by
          rw [List.length_singleton]
          omega
        rw [if_neg full, List.take_of_length_le room, List.map_append, List.map_singleton]
    · dsimp only at mem
      split at mem
      · exact l.lines line mem
      · rcases List.mem_append.mp mem with mem | mem
        · exact l.lines line mem
        · exact ⟨fd, List.mem_singleton.mp mem⟩

/-- **The records of a buffer.** -/
theorem Listed.foldl {done : List Bytes} {s : FdState} (l : Listed abi readlink pid done s)
    (rs : List Bytes) :
    Listed abi readlink pid (done ++ rs) (rs.foldl (Hawkeye.enter abi readlink pid) s) := by
  induction rs generalizing done s with
  | nil =>
    rw [List.append_nil]
    exact l
  | cons r rs ih =>
    have := ih (l.enter r)
    rwa [List.append_assoc, List.singleton_append] at this

theorem Listed.walkEntries {done : List Bytes} {s : FdState} (l : Listed abi readlink pid done s)
    {rs : List Bytes} (wf : ∀ r ∈ rs, WellFormed abi r) :
    ∃ s', walkEntries abi readlink pid s rs.flatten = some s' ∧
      Listed abi readlink pid (done ++ rs) s' := by
  refine ⟨_, ?_, l.foldl rs⟩
  have nonempty : ∀ r ∈ rs, r ≠ [] := fun r mem => (wf r mem).ne_nil
  exact Packed.walk_records nonempty (fun r mem rest => (wf r mem).dReclen_append rest)
    (fun r mem rest s => visitEntry_eq abi readlink pid (wf r mem) rest s)
    (Nat.lt_succ_of_le (Packed.length_le_flatten nonempty)) [] s

/-- **Both loops.** -/
theorem Listed.loops {done : List Bytes} {s : FdState} (l : Listed abi readlink pid done s)
    {results : List (List Bytes)} (wf : ∀ rs ∈ results, ∀ r ∈ rs, WellFormed abi r) :
    ∃ s', (results.map List.flatten).foldlM (Hawkeye.walkEntries abi readlink pid) s = some s' ∧
      Listed abi readlink pid (done ++ results.flatten) s' := by
  induction results generalizing done s with
  | nil => exact ⟨s, rfl, by rw [List.flatten_nil, List.append_nil]; exact l⟩
  | cons rs results ih =>
    obtain ⟨s₁, walked, l₁⟩ := l.walkEntries (wf rs List.mem_cons_self)
    obtain ⟨s₂, looped, l₂⟩ := ih l₁ fun rs' mem => wf rs' (List.mem_cons_of_mem _ mem)
    refine ⟨s₂, ?_, ?_⟩
    · rw [List.map_cons, List.foldlM_cons, walked]
      exact looped
    · rwa [List.flatten_cons, ← List.append_assoc]

variable (abi readlink pid)

/-- **`GetFds` comes to every entry once.** For every sequence of buffers that are well-formed records
one behind the other: the loops end, they come to every record once and in order, and count those whose
name is a number from 0 to `2 ^ 31 - 1` in a `size_t`. As long as it counts them, the first 1024 of these are
recorded in order, each with the first 511 bytes of its own target, or `???` where `readlink` fails or
returns nothing. `RecordNewline` cuts none of the lines. -/
theorem getFds_enumerates {results : List (List Bytes)}
    (wf : ∀ rs ∈ results, rs ≠ [] ∧ ∀ r ∈ rs, WellFormed abi r) :
    ∃ s, fdLoops abi readlink pid (results.map List.flatten) = some s ∧
      s.visited = results.flatten ∧
      s.total = abi.wrap (fdsOf abi results.flatten).length ∧
      ((fdsOf abi results.flatten).length < abi.modulus →
        s.total = (fdsOf abi results.flatten).length ∧
        s.recorded = ((fdsOf abi results.flatten).take 1024).map (fdRecord readlink pid)) ∧
      ∀ line ∈ s.recorded, printed (some line) = some line := by
  obtain ⟨s, looped, l⟩ := (listed_nil abi readlink pid).loops fun rs mem => (wf rs mem).2
  refine ⟨s, looped, l.visited, l.total, fun few => ⟨l.total.trans (Abi.wrap_of_lt few), l.recorded few⟩,
    fun line mem => ?_⟩
  obtain ⟨fd, rfl⟩ := l.lines line mem
  exact printed_fdRecord readlink pid fd

end Walk

/-! ## A directory with one descriptor -/

/-- A record for a name, with zeros in the other fields. -/
def record (abi : Abi) (name : Bytes) : Bytes :=
  List.replicate (reclenOffset abi) 0 ++ encodeLE 2 (nameOffset abi + name.length + 1) ++
    List.replicate (nameOffset abi - reclenOffset abi - 2) 0 ++ name ++ [0]

/-- Two buffers: `.` and `..`, then `5` and a name that is no number. -/
def oneFd (abi : Abi) : List (List Bytes) :=
  [[record abi (ascii ['.']), record abi (ascii ['.', '.'])],
    [record abi (ascii ['5']), record abi (ascii ['5', 'x'])]]

theorem wellFormed_oneFd (abi : Abi) : ∀ rs ∈ oneFd abi, rs ≠ [] ∧ ∀ r ∈ rs, WellFormed abi r := by
  have each : ∀ rs ∈ oneFd abi, rs ≠ [] ∧
      ∀ r ∈ rs, dReclen abi r = r.length ∧ 0 ∈ r.drop (nameOffset abi) := by
    cases abi <;> decide
  intro rs mem
  exact ⟨(each rs mem).1, fun r mem' => ⟨((each rs mem).2 r mem').1, ((each rs mem).2 r mem').2⟩⟩

theorem fdsOf_oneFd (abi : Abi) : fdsOf abi (oneFd abi).flatten = [5] := by
  cases abi <;> decide

theorem getFds_enumerates_one :
    fdsOf .lp64 (oneFd .lp64).flatten = [5] ∧
      ∃ s, fdLoops .lp64 (fun _ => none) 7 ((oneFd .lp64).map List.flatten) = some s ∧
        s.visited = (oneFd .lp64).flatten ∧
        s.total = (fdsOf .lp64 (oneFd .lp64).flatten).length ∧
        s.recorded =
          ((fdsOf .lp64 (oneFd .lp64).flatten).take 1024).map (fdRecord (fun _ => none) 7) ∧
        ∀ line ∈ s.recorded, printed (some line) = some line := by
  obtain ⟨s, looped, visited, -, counts, lines⟩ :=
    getFds_enumerates .lp64 (fun _ => none) 7 (wellFormed_oneFd .lp64)
  obtain ⟨total, recorded⟩ := counts (by rw [fdsOf_oneFd]; decide)
  exact ⟨fdsOf_oneFd .lp64, s, looped, visited, total, recorded, lines⟩

/-- A target of 512 bytes. -/
def longTarget : Target :=
  ⟨List.replicate 512 0x61, fun mem => absurd (List.eq_of_mem_replicate mem) (by decide)⟩

/-- It is not recorded whole. -/
theorem getFds_cuts_target :
    ¬ ∃ s, fdLoops .lp64 (fun _ => some longTarget) 7 ((oneFd .lp64).map List.flatten) = some s ∧
      s.recorded = ((fdsOf .lp64 (oneFd .lp64).flatten).take 1024).map fun fd =>
        fdLine (Int32.ofNat fd) longTarget.val := by
  rintro ⟨s, looped, recorded⟩
  obtain ⟨s', looped', l⟩ := (listed_nil .lp64 (fun _ => some longTarget) 7).loops
    fun rs mem => (wellFormed_oneFd .lp64 rs mem).2
  cases looped.symm.trans looped'
  have lines := (l.recorded (by rw [List.nil_append, fdsOf_oneFd]; decide)).symm.trans recorded
  rw [List.nil_append, fdsOf_oneFd] at lines
  have lengths := congrArg List.length (List.cons.inj lines).1
  have cut : (longTarget.val.take 511).length = 511 := by
    rw [List.length_take, longTarget, List.length_replicate]
    rfl
  have nonempty : longTarget.val ≠ [] := by
    rw [longTarget]
    exact List.cons_ne_nil _ _
  simp only [fdRecord, if_neg nonempty, fdLine, List.length_append, cut] at lengths
  simp only [longTarget, List.length_replicate] at lengths
  omega

end Dolin.Hawkeye
