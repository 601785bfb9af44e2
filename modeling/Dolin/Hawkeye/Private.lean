import Dolin.Base.Abi
import Dolin.Base.Region

/-!
# What the crash monitor and its daemon share

From `hawkeye_private.h` and `hawkeye_private.cpp`: the signals, the address of the socket and the
threads of a process.
-/

namespace Dolin.Hawkeye

open Region

/-- `SIGNALS_TO_CATCH`: `SIGABRT`, `SIGBUS`, `SIGFPE`, `SIGSEGV`, `SIGILL`, `SIGSTKFLT` and `SIGTRAP`,
as the Android ABIs number them. -/
def SIGNALS_TO_CATCH : List Nat := [6, 7, 8, 11, 4, 16, 5]

/-- `struct sockaddr_un`. -/
structure SockaddrUn where
  sunFamily : Nat
  sunPath : Bytes
  deriving DecidableEq

def UNIX_PATH_MAX : Nat := 108

/-- `FillSockAddr`: an abstract socket, so the first byte of the path is zero, and what does not fit
is discarded. -/
def fillSockAddr (socketName : JString) : SockaddrUn :=
  { sunFamily := 1
    sunPath := resize (0 :: socketName.utf8.take (UNIX_PATH_MAX - 1)) UNIX_PATH_MAX }

/-! ## The threads of a process -/

/-- `isspace` in the C locale. -/
def isSpace (c : Char) : Bool := c = ' ' || ('\t' ≤ c && c ≤ '\r')

/-- The number that the digits at the front of a text stand for. -/
def leadingDigits (text : List Char) : Nat := Nat.ofDigitChars 10 (text.takeWhile Char.isDigit) 0

/-- `atoi`: white space, a sign and digits, and 0 where there is no digit. -/
def atoi (text : List Char) : Int :=
  match text.dropWhile isSpace with
  | '-' :: rest => -leadingDigits rest
  | '+' :: rest => leadingDigits rest
  | rest => leadingDigits rest

/-- `GetThreads`: of the names in `/proc/<pid>/task`, in the order `readdir` gives them, the numbers
that are neither 0 nor the process itself, as far as there is room. -/
def getThreads (pid : Int) : Nat → List (List Char) → List Int
  | 0, _ => []
  | _ + 1, [] => []
  | size + 1, name :: names =>
    if atoi name = 0 ∨ atoi name = pid then getThreads pid (size + 1) names
    else atoi name :: getThreads pid size names

end Dolin.Hawkeye
