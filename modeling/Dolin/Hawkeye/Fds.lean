import Dolin.Base.Packed
import Dolin.Hawkeye.Sections

/-!
# The open files in a report

`Atoi` and `GetFds` of `hawkeye_private.cpp`, and `getFds` of `LogUtils.java`.

`GetFds` reads `/proc/<pid>/fd` with the system call that fills a buffer with packed records, walks over
them, and asks `readlink` for the target of every descriptor, up to 1024. A target is a path, so it has
no zero byte.
-/

namespace Dolin.Hawkeye

open Region Daemon

/-! ## Numbers -/

/-- Bytes as characters. -/
def chars (bytes : Bytes) : List Char := bytes.map fun b => Char.ofNat b.toNat

/-- `LONG_MAX`. -/
def longMax (abi : Abi) : Int := abi.modulus / 2 - 1

/-- `LONG_MIN`. -/
def longMin (abi : Abi) : Int := -(abi.modulus / 2)

/-- What `strtol` leaves: its value, whether `end_ptr` is behind the start, and whether `errno` is
`ERANGE`. -/
structure Strtol where
  val : Int
  converted : Bool
  erange : Bool

/-- The number that the digits at the front of `text` stand for, with a sign. -/
def strtolDigits (abi : Abi) (sign : Int) (text : List Char) : Strtol :=
  if text.takeWhile Char.isDigit = [] then ⟨0, false, false⟩
  else
    let val := sign * leadingDigits text
    if longMax abi < val then ⟨longMax abi, true, true⟩
    else if val < longMin abi then ⟨longMin abi, true, true⟩
    else ⟨val, true, false⟩

/-- `strtol` with base 10: white space, a sign and digits. -/
def strtol (abi : Abi) (text : List Char) : Strtol :=
  match text.dropWhile isSpace with
  | '-' :: rest => strtolDigits abi (-1) rest
  | '+' :: rest => strtolDigits abi 1 rest
  | rest => strtolDigits abi 1 rest

/-- `Atoi`: the number, where the return value is 0. -/
def Atoi (abi : Abi) (str : List Char) : Option Int32 :=
  match str with
  | [] => none
  | c :: rest =>
    if ¬ c.isDigit ∧ c ≠ '-' then none
    else if rest.any fun c => !c.isDigit then none
    else
      let r := strtol abi str
      if r.erange ∧ (r.val = longMax abi ∨ r.val = longMin abi) ∨ r.erange ∧ r.val = 0 then none
      else if ¬ r.converted then none
      else if 2 ^ 31 ≤ r.val ∨ r.val < -2 ^ 31 then none
      else some (Int32.ofInt r.val)

/-- A call `Atoi(str, &i)`: its return value, and `i` afterwards. -/
def atoiInto (abi : Abi) (str : List Char) (i : Int32) : Int × Int32 :=
  match Atoi abi str with
  | some val => (0, val)
  | none => (-1, i)

/-! ## The records of a directory -/

/-- The offset of `d_reclen` in `hawkeye_dirent_t`. -/
def reclenOffset : Abi → Nat
  | .ilp32 => 8
  | .lp64 => 16

/-- The offset of `d_name`: `getdents64` has a byte `d_type` in front of it. -/
def nameOffset : Abi → Nat
  | .ilp32 => 10
  | .lp64 => 19

/-- `ent->d_reclen`. -/
def dReclen (abi : Abi) (ent : Bytes) : Nat := decodeLE (slice ent (reclenOffset abi) 2)

/-- `ent->d_name`. -/
def dName (abi : Abi) (ent : Bytes) : Bytes := cstring (ent.drop (nameOffset abi))

/-- The target of a link. -/
abbrev Target := { target : Bytes // 0 ∉ target }

/-- The path that is given to `readlink`. -/
def fdLinkPath (pid fdNum : Int32) : Bytes :=
  ascii "/proc/".toList ++ appendInt pid ++ ascii "/fd/".toList ++ appendInt fdNum

/-- The text that `fd_path` holds after `readlink`, `none` where that fails: 511 bytes at most are
stored. -/
def fdPath : Option Target → Bytes
  | none => ascii "???".toList
  | some target =>
    let len := (target.val.take 511).length
    if len ≤ 0 ∨ 511 < len then ascii "???".toList else target.val.take 511

/-- `"    fd %d: %s"`. -/
def fdLine (fdNum : Int32) (path : Bytes) : Bytes :=
  ascii "    fd ".toList ++ appendInt fdNum ++ ascii ": ".toList ++ path

/-- `"    ......"`. -/
def fdDots : Bytes := ascii "    ......".toList

/-- `"    (number of FDs: %zu)"`. -/
def numberOfFds (total : Nat) : Bytes :=
  ascii "    (number of FDs: ".toList ++ ascii (Nat.toDigits 10 total) ++ ascii [')']

/-- What the loops of `GetFds` have done: the count, the texts that went to `RecordNewline`, and the
records they came to. -/
structure FdState where
  total : Nat := 0
  recorded : List Bytes := []
  visited : List Bytes := []

/-- The body of the inner loop, up to `next`. -/
def visitEntry (abi : Abi) (readlink : Bytes → Option Target) (pid : Int32) (s : FdState)
    (ent : Bytes) : FdState :=
  let s := { s with visited := s.visited ++ [ent.take (dReclen abi ent)] }
  let name := chars (dName abi ent)
  if name = [] then s
  else if name.take 1 = ['.'] then s
  else if name.take 2 = ['.', '.'] then s
  else
    match Atoi abi name with
    | none => s
    | some fdNum =>
      if fdNum < 0 then s
      else
        let s := { s with total := abi.wrap (s.total + 1) }
        if 1024 < s.total then s
        else
          { s with
            recorded := s.recorded ++ [fdLine fdNum (fdPath (readlink (fdLinkPath pid fdNum)))] }

/-- The inner loop over a buffer. A record has at least one byte, so there are at most as many turns as
bytes; a record of length 0 would be visited for ever. -/
def walkEntries (abi : Abi) (readlink : Bytes → Option Target) (pid : Int32) (s : FdState)
    (buf : Bytes) : Option FdState :=
  Packed.walk (dReclen abi) (visitEntry abi readlink pid) buf (buf.length + 1) 0 s

/-- Both loops: the buffers that the system call fills before it answers 0 or fails. -/
def fdLoops (abi : Abi) (readlink : Bytes → Option Target) (pid : Int32) (bufs : List Bytes) :
    Option FdState :=
  bufs.foldlM (walkEntries abi readlink pid) {}

/-- `GetFds`: the texts that go to `RecordNewline`. There are no buffers where `open` fails. -/
def getFds (abi : Abi) (readlink : Bytes → Option Target) (pid : Int32) (bufs : List Bytes) :
    Option (List Bytes) :=
  (fdLoops abi readlink pid bufs).map fun s =>
    s.recorded ++ (if 1024 < s.total then [fdDots] else []) ++ [numberOfFds s.total]

/-! ## In Java -/

/-- `TextUtils.isDigitsOnly`. -/
def isDigitsOnly (name : Bytes) : Bool := (chars name).all Char.isDigit

/-- The line for a descriptor, with what `readlink` answers for its name. -/
def javaFdLine (readlink : Bytes → Option Bytes) (name : Bytes) : Bytes :=
  let path := (readlink name).getD []
  ascii "    fd ".toList ++ name ++ ascii ": ".toList ++
    (if path = [] then ascii "???".toList else javaTrim path)

/-- The loop of `LogUtils.getFds`, from a count. It counts behind the line. -/
def javaFdsLoop (readlink : Bytes → Option Bytes) : List Bytes → Nat → List Bytes
  | [], _ => []
  | fd :: fds, count =>
    javaFdLine readlink fd ::
      (if 1024 < count + 1 then [] else javaFdsLoop readlink fds (count + 1))

/-- `LogUtils.getFds`: the lines of its answer, each with a newline. `listing` is what the directory
has, `none` where it cannot be read. -/
def javaGetFds (readlink : Bytes → Option Bytes) (listing : Option (List Bytes)) : List Bytes :=
  let fds := listing.map (List.filter isDigitsOnly)
  [ascii "open file:".toList] ++
    (match fds with
      | none => []
      | some fds =>
        if 0 < fds.length then
          javaFdsLoop readlink fds 0 ++ (if 1024 < fds.length then [fdDots] else []) ++
            [numberOfFds fds.length]
        else []) ++ [[]]

end Dolin.Hawkeye
