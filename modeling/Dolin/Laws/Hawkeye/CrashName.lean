import Dolin.Base.Decimal
import Dolin.Hawkeye.CrashName

/-!
# Crash files in the order of time

With 20 digits each name of a crash file sorts by the number in it. The number is the time where a
`long` holds it, which takes 64 bits, and the Java names sort with the native ones where the locale
has the same digits.
-/

namespace Dolin.Hawkeye

open Region Daemon

/-! ## Twenty digits -/

/-- The 20 ASCII digits of a number. -/
def numeral (n : Nat) : Bytes := (Decimal.digits 20 n).map fun d => UInt8.ofNat (48 + d)

theorem length_numeral (n : Nat) : (numeral n).length = 20 := by
  rw [numeral, List.length_map, Decimal.length_digits]

theorem numeral_lex {m n : Nat} (less : m < n) (fits : n < 10 ^ 20) :
    List.Lex (· < ·) (numeral m) (numeral n) := by
  have mono : ∀ e < 10, ∀ d < e, UInt8.ofNat (48 + d) < UInt8.ofNat (48 + e) := by decide
  exact Decimal.lex_map (fun d e less small => mono e small d less) (Decimal.digits_lex less fits)
    fun d mem => Decimal.digits_lt mem

theorem format020_eq {n : Nat} (fits : n < 10 ^ 20) :
    format020 n = (Decimal.digits 20 n).map Nat.digitChar := by
  have nonneg : ¬ (n : Int) < 0 := by omega
  simp only [format020, Int.natAbs_natCast]
  rw [if_neg nonneg, Decimal.pad_toDigits fits]

theorem ascii_format020 {n : Nat} (fits : n < 10 ^ 20) : ascii (format020 n) = numeral n := by
  have same : ∀ d < 10, UInt8.ofNat (Nat.digitChar d).toNat = UInt8.ofNat (48 + d) := by decide
  rw [format020_eq fits, ascii, List.map_map, numeral]
  exact List.map_congr_left fun d mem => same d (Decimal.digits_lt mem)

/-- In a locale each digit is its own. -/
theorem Locale.format020_eq (locale : Locale) {n : Nat} (fits : n < 10 ^ 20) :
    locale.format020 n = (Decimal.digits 20 n).flatMap locale.digit := by
  have same : ∀ d < 10, (Nat.digitChar d).isDigit = true ∧ (Nat.digitChar d).toNat - 48 = d := by
    decide
  rw [Locale.format020, Hawkeye.format020_eq fits, List.flatMap_map]
  apply List.flatMap_congr
  intro d mem
  obtain ⟨digit, value⟩ := same d (Decimal.digits_lt mem)
  rw [if_pos digit, value]

/-! ## The names -/

/-- The name that `DaemonCreateReport` gives a file. -/
def nativeLogPath (abi : Abi) (folder : Bytes) (tv : Timeval) : Bytes :=
  crashLogPath folder (crashTime abi tv)

/-- The name has room in `log_file_path`. -/
def NameFits (folder : Bytes) : Prop := folder.length + 42 ≤ 255

/-- The part of a name that is the same for all files of a folder. -/
def stem (folder : Bytes) : Bytes := folder ++ ascii "/hawkeye_".toList

theorem nativeLogPath_eq {abi : Abi} {folder : Bytes} {tv : Timeval} (room : NameFits folder)
    (holds : crashTime abi tv = tv.micros) :
    nativeLogPath abi folder tv =
      stem folder ++ (numeral tv.micros ++ ascii ".native.crash".toList) := by
  have fits : tv.micros < 10 ^ 20 := by
    have := tv.sec_lt
    have := tv.usec_lt
    unfold Timeval.micros
    omega
  have length : (ascii "/hawkeye_".toList ++ numeral tv.micros ++
      ascii ".native.crash".toList).length = 42 := by
    rw [List.length_append, List.length_append, length_numeral]
    rfl
  rw [nativeLogPath, crashLogPath, holds, ascii_format020 fits, snprintf256,
    List.take_of_length_le, stem, List.append_assoc, List.append_assoc]
  rw [List.length_append, length]
  exact room

theorem toInt_mul_1000 {ms : Int64} (nonneg : 0 ≤ ms.toInt) (small : ms.toInt < 2 ^ 31 * 1000) :
    (ms * 1000).toInt = (ms.toInt.toNat * 1000 : Nat) := by
  have thousand : (1000 : Int64).toInt = 1000 := rfl
  rw [Int64.toInt_mul, thousand, Int.bmod_eq_of_le (by omega) (by omega)]
  omega

/-- The names of two different numbers sort as these. -/
theorem stem_lex {m n : Nat} (less : m < n) (fits : n < 10 ^ 20) (folder x y : Bytes) :
    List.Lex (· < ·) (stem folder ++ (numeral m ++ x)) (stem folder ++ (numeral n ++ y)) :=
  List.Lex.append_left _
    (Decimal.lex_append (numeral_lex less fits) (by rw [length_numeral, length_numeral]) x y) _

/-! ## The number -/

theorem crashTime_eq (abi : Abi) (tv : Timeval) :
    crashTime abi tv = (tv.micros : Int).bmod abi.modulus := by
  unfold crashTime wrapLong Timeval.micros
  have product : (tv.tvSec : Int) * 1000 * 1000 + tv.tvUsec =
      ((tv.tvSec * 1000000 + tv.tvUsec : Nat) : Int) := by omega
  rw [Int.bmod_add_bmod, Int.add_bmod, Int.bmod_mul_bmod, ← Int.add_bmod, product]

/-- A `long` holds the time where it has 64 bits. With 32 it does for 35 minutes. -/
theorem crashTime_exact_iff (abi : Abi) (tv : Timeval) :
    crashTime abi tv = tv.micros ↔ abi = .lp64 ∨ tv.micros < 2 ^ 31 := by
  have sec := tv.sec_lt
  have usec := tv.usec_lt
  have small : tv.micros < 2 ^ 63 := by
    unfold Timeval.micros
    omega
  rw [crashTime_eq]
  cases abi with
  | lp64 =>
    have modulus : Abi.modulus .lp64 = 2 ^ 64 := rfl
    rw [modulus]
    refine iff_of_true (Int.bmod_eq_of_le (by omega) (by omega)) (.inl rfl)
  | ilp32 =>
    have modulus : Abi.modulus .ilp32 = 2 ^ 32 := rfl
    rw [modulus, or_iff_right Abi.noConfusion]
    constructor
    · intro same
      have := Int.bmod_lt (x := tv.micros) (show 0 < 2 ^ 32 by omega)
      omega
    · intro less
      exact Int.bmod_eq_of_le (by omega) (by omega)

/-! ## The order -/

/-- What the names of two crashes owe: the time is printed exactly, the names sort as the crashes, and
so do these with the names that the Java handler gives. -/
structure NamesOrdered (abi : Abi) (locale : Locale) (folder : Bytes) (first second : Timeval) :
    Prop where
  exact_first : crashTime abi first = first.micros
  exact_second : crashTime abi second = second.micros
  native : List.Lex (· < ·) (nativeLogPath abi folder first) (nativeLogPath abi folder second)
  java_after : ∀ ms : Int64, 0 ≤ ms.toInt → ms.toInt < 2 ^ 31 * 1000 →
    first.micros < ms.toInt.toNat * 1000 →
      List.Lex (· < ·) (nativeLogPath abi folder first) (javaLogPath locale folder ms)
  java_before : ∀ ms : Int64, 0 ≤ ms.toInt → ms.toInt < 2 ^ 31 * 1000 →
    ms.toInt.toNat * 1000 < second.micros →
      List.Lex (· < ·) (javaLogPath locale folder ms) (nativeLogPath abi folder second)

/-- The locale has the ASCII digits. -/
def Locale.Ascii (locale : Locale) : Prop := ∀ d < 10, locale.digit d = [UInt8.ofNat (48 + d)]

theorem javaLogPath_eq {locale : Locale} (digits : locale.Ascii) (folder : Bytes) {ms : Int64}
    (nonneg : 0 ≤ ms.toInt) (small : ms.toInt < 2 ^ 31 * 1000) :
    javaLogPath locale folder ms =
      stem folder ++ (numeral (ms.toInt.toNat * 1000) ++ ascii ".java.crash".toList) := by
  have fits : ms.toInt.toNat * 1000 < 10 ^ 20 := by omega
  have same : (Decimal.digits 20 (ms.toInt.toNat * 1000)).flatMap locale.digit =
      numeral (ms.toInt.toNat * 1000) := by
    rw [numeral, ← List.flatMap_pure_eq_map]
    exact List.flatMap_congr fun d mem => digits d (Decimal.digits_lt mem)
  rw [javaLogPath, toInt_mul_1000 nonneg small, locale.format020_eq fits, same, stem,
    List.append_assoc, List.append_assoc]

theorem numeral_eq_cons (n : Nat) : ∃ d < 10, ∃ more, numeral n = UInt8.ofNat (48 + d) :: more := by
  obtain ⟨d, more, eq⟩ := List.exists_cons_of_length_eq_add_one (Decimal.length_digits 20 n)
  refine ⟨d, Decimal.digits_lt (eq ▸ List.mem_cons_self), ?_⟩
  rw [numeral, eq, List.map_cons]
  exact ⟨_, rfl⟩

/-- In other digits, the name for the start of 1970 goes on with a byte that is not ASCII. -/
theorem javaLogPath_above {locale : Locale} {b : UInt8} {rest : Bytes}
    (zero : locale.digit 0 = b :: rest) (folder : Bytes) :
    ∃ more, javaLogPath locale folder 0 = stem folder ++ b :: more := by
  have start : ((0 : Int64) * 1000).toInt = ((0 : Nat) : Int) := rfl
  rw [javaLogPath, start, locale.format020_eq (by omega), Decimal.digits_zero, List.replicate_succ,
    List.flatMap_cons, zero, List.append_assoc, List.append_assoc, List.cons_append]
  exact ⟨_, (List.append_assoc ..).symm⟩

/-- A name in other digits sorts behind every native one. -/
theorem not_lex_of_above {locale : Locale} {b : UInt8} {rest : Bytes}
    (zero : locale.digit 0 = b :: rest) (above : 0x80 ≤ b) {abi : Abi} {folder : Bytes}
    {tv : Timeval} (room : NameFits folder) (holds : crashTime abi tv = tv.micros) :
    ¬ List.Lex (· < ·) (javaLogPath locale folder 0) (nativeLogPath abi folder tv) := by
  obtain ⟨more, java⟩ := javaLogPath_above zero folder
  obtain ⟨d, small, tail, native⟩ := numeral_eq_cons tv.micros
  have low : ∀ d < 10, UInt8.ofNat (48 + d) < 0x80 := by decide
  rw [java, nativeLogPath_eq room holds, native]
  intro lex
  have less := UInt8.lt_of_lt_of_le (low d small) above
  cases Decimal.lex_of_append_left (fun a => UInt8.lt_irrefl a) lex with
  | rel greater => exact UInt8.lt_asymm less greater
  | cons _ => exact UInt8.lt_irrefl _ less

/-- **Crash files sort by time.** For two instants, one before the other, a folder whose names fit and
every ABI and locale: the time is printed exactly and the names sort in the order of time, among
themselves and with those of the Java handler, if and only if `long` has 64 bits or the later instant
is in the first `2 ^ 31` microseconds, and the locale has the ASCII digits. -/
theorem names_ordered_iff (abi : Abi) (locale : Locale) (folder : Bytes) (room : NameFits folder)
    (first second : Timeval) (less : first.micros < second.micros) :
    NamesOrdered abi locale folder first second ↔
      (abi = .lp64 ∨ second.micros < 2 ^ 31) ∧ locale.Ascii := by
  have small : second.micros < 10 ^ 20 := by
    have := second.sec_lt
    have := second.usec_lt
    unfold Timeval.micros
    omega
  constructor
  · intro ordered
    refine ⟨(crashTime_exact_iff abi second).mp ordered.exact_second, ?_⟩
    rcases locale.ascii_or_above with digits | above
    · exact digits
    · obtain ⟨b, rest, zero, high⟩ := above 0 (by omega)
      have before := ordered.java_before 0 (by simp) (by simp) (Nat.zero_lt_of_lt less)
      exact absurd before (not_lex_of_above zero high room ordered.exact_second)
  · rintro ⟨wide, digits⟩
    have exact₂ := (crashTime_exact_iff abi second).mpr wide
    have exact₁ := (crashTime_exact_iff abi first).mpr (wide.imp_right (by omega))
    refine ⟨exact₁, exact₂, ?_, ?_, ?_⟩
    · rw [nativeLogPath_eq room exact₁, nativeLogPath_eq room exact₂]
      exact stem_lex less small folder _ _
    · intro ms nonneg bound later
      rw [nativeLogPath_eq room exact₁, javaLogPath_eq digits folder nonneg bound]
      exact stem_lex later (by omega) folder _ _
    · intro ms nonneg bound earlier
      rw [nativeLogPath_eq room exact₂, javaLogPath_eq digits folder nonneg bound]
      exact stem_lex earlier small folder _ _

/-- A locale with the ASCII digits. -/
def english : Locale := ⟨fun d => [UInt8.ofNat (48 + d)], .inl fun _ _ => rfl⟩

/-- A second in 2021, and the microsecond after it. -/
def second2021 (tvUsec : Nat) (usec_lt : tvUsec < 1000000) : Timeval :=
  ⟨1630000000, tvUsec, by decide, usec_lt⟩

/-- With a `long` of 64 bits their names are in order. -/
theorem names_ordered_iff_2021 :
    NamesOrdered .lp64 english [0x2f, 0x65] (second2021 0 (by decide)) (second2021 1 (by decide)) :=
  (names_ordered_iff .lp64 english [0x2f, 0x65] (by simp [NameFits]) (second2021 0 (by decide))
    (second2021 1 (by decide)) (by simp [Timeval.micros, second2021])).mpr
    ⟨.inl rfl, fun _ _ => rfl⟩

/-- With 32 bits the number that is printed for that second is another one. -/
theorem time_wraps_on_ilp32 :
    crashTime .ilp32 (second2021 0 (by decide)) = -218374144 ∧
      ¬ NamesOrdered .ilp32 english [0x2f, 0x65] (second2021 0 (by decide))
        (second2021 1 (by decide)) := by
  refine ⟨by decide, fun ordered => ?_⟩
  have wrong : crashTime .ilp32 (second2021 0 (by decide)) ≠ (second2021 0 (by decide)).micros := by
    decide
  exact wrong ordered.exact_first

end Dolin.Hawkeye
