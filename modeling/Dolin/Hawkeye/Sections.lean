import Dolin.Base.Lines
import Dolin.Hawkeye.Report

/-!
# The sections of a report that copy a file

`GetSubSection` of `hawkeye_private.cpp` and `getFileContent` of `FileUtils.java`: the non-blank lines
of a file, trimmed and indented, up to a limit. The one reads with `fgets` into 512 bytes and counts
in a `size_t`, the other reads whole lines and counts in an `int`.
-/

namespace Dolin.Hawkeye

open Region Daemon

/-- `isspace`, in the C locale. -/
def isspace (c : UInt8) : Bool := c == 0x20 || (0x09 ≤ c && c ≤ 0x0d)

/-- `Trim`: `start` goes forward over spaces, then `end` backward. -/
def trim (start : Bytes) : Bytes := ((cstring start).dropWhile isspace).rdropWhile isspace

/-- What a loop of `fgets` with a buffer of `size` bytes reads from a file, `size` at least 2: each
piece ends behind a newline or has `size - 1` bytes. -/
def fgets (size : Nat) (text : Bytes) : List Bytes := Lines.pieces 0x0a (size - 2) (size - 2) [] text

/-- The loop of `GetSubSection`, from a count: the texts that go to `RecordNewline`, and the count. -/
def subSectionLoop (abi : Abi) (limit : Nat) : List Bytes → Nat → List Bytes × Nat
  | [], n => ([], n)
  | line :: lines, n =>
    let p := trim line
    if 0 < p.length then
      let n := abi.wrap (n + 1)
      let rest := subSectionLoop abi limit lines n
      if limit = 0 ∨ n ≤ limit then ((ascii "  ".toList ++ p) :: rest.1, rest.2) else rest
    else subSectionLoop abi limit lines n

/-- `GetSubSection`: the texts that go to `RecordNewline`. The file is `none` where it cannot be
opened. -/
def getSubSection (abi : Abi) (file : Option Bytes) (title : Bytes) (limit : Nat) : List Bytes :=
  match file with
  | none => []
  | some text =>
    let loop := subSectionLoop abi limit (fgets 512 text) 0
    let n := loop.2
    title :: (loop.1 ++
      (if 0 < limit ∧ limit < n then
        [ascii "  ......".toList,
          ascii "  (number of records: ".toList ++ ascii (Nat.toDigits 10 n) ++ ascii [')']]
      else []) ++ [ascii ['-']])

/-- The lines that `BufferedReader.readLine` gives, where `line` is read of the next: a line ends at a
newline, a carriage return, or both. -/
def readLines (line : Bytes) : Bytes → List Bytes
  | [] => if line = [] then [] else [line]
  | 0x0d :: 0x0a :: rest => line :: readLines [] rest
  | c :: rest =>
    if c = 0x0a ∨ c = 0x0d then line :: readLines [] rest else readLines (line ++ [c]) rest

/-- `String.trim` of a Java string of ASCII characters. -/
def javaTrim (s : Bytes) : Bytes := (s.dropWhile (· ≤ 0x20)).rdropWhile (· ≤ 0x20)

/-- `append` of an `int`. -/
def appendInt (n : Int32) : Bytes :=
  let digits := ascii (Nat.toDigits 10 n.toInt.natAbs)
  if n < 0 then ascii ['-'] ++ digits else digits

/-- The loop of `getFileContent`, from a count: what is appended, and the count. -/
def fileContentLoop (limit : Int32) : List Bytes → Int32 → Bytes × Int32
  | [], n => ([], n)
  | line :: lines, n =>
    let p := javaTrim line
    if 0 < p.length then
      let n := n + 1
      let rest := fileContentLoop limit lines n
      if limit = 0 ∨ n ≤ limit then (ascii "  ".toList ++ p ++ [0x0a] ++ rest.1, rest.2) else rest
    else fileContentLoop limit lines n

/-- `getFileContent` of a file of ASCII characters. Where it cannot be opened, the exception is
caught. -/
def getFileContent (file : Option Bytes) (limit : Int32) : Bytes :=
  match file with
  | none => []
  | some text =>
    let loop := fileContentLoop limit (readLines [] text) 0
    let n := loop.2
    loop.1 ++
      (if 0 < limit ∧ limit < n then
        ascii "  ......".toList ++ [0x0a] ++ ascii "  (number of records: ".toList ++ appendInt n ++
          ascii [')'] ++ [0x0a]
      else [])

end Dolin.Hawkeye
