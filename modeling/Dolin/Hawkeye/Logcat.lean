import Dolin.Hawkeye.Sections
import Mathlib.Data.List.Infix

/-!
# The logcat in a report

`GetLogcatInfo` of `hawkeye_private.cpp`. It reads the output of a `logcat` command in pieces and hands
each to `RecordLine` as the format itself, with no arguments. What `vsnprintf` makes of a format
without arguments is a parameter: C says what it is as long as every `%` in it is half of a `%%`.
-/

namespace Dolin.Hawkeye

open Region Daemon

/-- What a format with no arguments prints, where C says it: `%%` is a percent sign, and any other
conversion asks for an argument that is not there. -/
def expand : Bytes → Option Bytes
  | [] => some []
  | 0x25 :: 0x25 :: rest => (expand rest).map (0x25 :: ·)
  | b :: rest => if b = 0x25 then none else (expand rest).map (b :: ·)

/-- A `vsnprintf` that does what C says. Where C says nothing, it may print anything or fail. -/
def Documented (vsnprintf : Bytes → Option Bytes) : Prop :=
  ∀ format text, expand format = some text → vsnprintf format = some text

/-- `pid_filter`. -/
def pidFilter (apiLevel : Int) (pid : Int32) : Bytes :=
  if 24 ≤ apiLevel then ascii "--pid ".toList ++ appendInt pid ++ ascii [' '] else []

/-- `pid_label`. -/
def pidLabel (apiLevel : Int) (pid : Int32) : Bytes :=
  if 24 ≤ apiLevel then [] else ascii [' '] ++ appendInt pid ++ ascii [' ']

/-- `cmd`, 128 bytes long. `%u` prints the low 32 bits of `lines`. -/
def logcatCmd (apiLevel : Int) (pid : Int32) (stackName : Bytes) (lines : Nat) (priority : UInt8) :
    Bytes :=
  cstring ((ascii "/system/bin/logcat -b ".toList ++ cstring stackName ++
    ascii " -d -v threadtime -t ".toList ++ ascii (Nat.toDigits 10 (lines % 2 ^ 32)) ++ ascii [' '] ++
    pidFilter apiLevel pid ++ ascii "*:".toList ++ [priority]).take 127)

/-- The heading. -/
def logcatHeading (apiLevel : Int) (pid : Int32) (stackName : Bytes) (lines : Nat)
    (priority : UInt8) : Bytes :=
  ascii "--------- tail end of log ".toList ++ cstring stackName ++ ascii " (".toList ++
    logcatCmd apiLevel pid stackName lines priority ++ ascii [')']

/-- The pieces that are recorded of the output: all, or those in which `strstr` finds the label. -/
def recordedPieces (apiLevel : Int) (pid : Int32) (output : Bytes) : List Bytes :=
  (fgets 1024 output).filter fun buf => 24 ≤ apiLevel ∨ pidLabel apiLevel pid <:+: cstring buf

/-- `GetLogcatInfo`: its calls. `output` is what the command prints, `none` where `popen` fails. -/
def getLogcatInfo (vsnprintf : Bytes → Option Bytes) (apiLevel : Int) (pid : Int32)
    (stackName : Bytes) (lines : Nat) (priority : UInt8) (output : Option Bytes) (behind : Bytes) :
    List RecordCall :=
  .recordNewline (some (logcatHeading apiLevel pid stackName lines priority)) behind ::
    match output with
    | none => []
    | some output =>
      (recordedPieces apiLevel pid output).map fun buf => .recordLine (vsnprintf (cstring buf))

end Dolin.Hawkeye
