import Dolin.Hawkeye.Report

/-!
# The time in the name of a crash file

`DaemonCreateReport` takes the time of day in microseconds as a `long`, `handleException` of
`JavaCrashHandler.java` takes a `Date` in milliseconds and multiplies it as a Java `long`. Both print
it with 20 digits: the one in C, the other in the digits of the default locale.
-/

namespace Dolin.Hawkeye

open Region

/-- `struct timeval`, as `gettimeofday` fills it up to 2038. -/
structure Timeval where
  tvSec : Nat
  tvUsec : Nat
  sec_lt : tvSec < 2 ^ 31
  usec_lt : tvUsec < 1000000

/-- The instant, in microseconds. -/
def Timeval.micros (tv : Timeval) : Nat := tv.tvSec * 1000000 + tv.tvUsec

/-- A result taken as a `long`, which has the width of `size_t`. -/
def wrapLong (abi : Abi) (i : Int) : Int := i.bmod abi.modulus

/-- `tv.tv_sec * 1000 * 1000 + tv.tv_usec`. -/
def crashTime (abi : Abi) (tv : Timeval) : Int :=
  wrapLong abi (wrapLong abi (wrapLong abi (tv.tvSec * 1000) * 1000) + tv.tvUsec)

/-- The digits of a locale as UTF-8: the ASCII digits, or others, which all have more than one
byte. -/
structure Locale where
  digit : Nat → Bytes
  ascii_or_above : (∀ d < 10, digit d = [UInt8.ofNat (48 + d)]) ∨
    ∀ d < 10, ∃ b rest, digit d = b :: rest ∧ 0x80 ≤ b

/-- `%020d` in a locale. -/
def Locale.format020 (locale : Locale) (n : Int) : Bytes :=
  (Daemon.format020 n).flatMap fun c =>
    if c.isDigit then locale.digit (c.toNat - 48) else Daemon.ascii [c]

/-- `logPath` of `handleException`, from `crashTime.getTime()`. -/
def javaLogPath (locale : Locale) (logFolderDir : Bytes) (getTime : Int64) : Bytes :=
  logFolderDir ++ (Daemon.ascii "/hawkeye_".toList ++ locale.format020 (getTime * 1000).toInt ++
    Daemon.ascii ".java.crash".toList)

end Dolin.Hawkeye
