import Dolin.Base.JavaString
import Dolin.Zap.Print

/-!
# A message on its way to the logcat

`printInner` and `doPrint` of `ZapPrint.java`. A long message goes to the logcat in parts. The loop has
its two places in `int`s and is given a number of turns; it answers `none` where they are not enough.
-/

namespace Dolin.Zap

/-- The method of `Log` that is called. -/
inductive LogMethod where
  | d
  | i
  | w
  | e
  deriving DecidableEq

/-- A call of `Log`. -/
structure LogcatLine where
  method : LogMethod
  tag : Utf16
  msg : Utf16

/-- `doPrint`. -/
def doPrint (level : Level) (tag msg : Utf16) : LogcatLine :=
  match level with
  | .debug => ⟨.d, tag, msg⟩
  | .warning => ⟨.w, tag, msg⟩
  | .error => ⟨.e, tag, msg⟩
  | .none | .info => ⟨.i, tag, msg⟩

/-- `MAX_LENGTH_OF_SINGLE_MESSAGE`. -/
def MAX_LENGTH_OF_SINGLE_MESSAGE : Int32 := 4063

/-- The lines that were printed, and whether `substring` threw after the last of them. -/
structure Printed where
  lines : List LogcatLine
  throws : Bool

/-- The loop of `printInner`. The sum is taken as an `int`. -/
def printLoop (level : Level) (tag : Utf16) (msg : JavaString) : Nat → Int32 → Int32 → Option Printed
  | 0, _, _ => none
  | turns + 1, start, stop =>
    if start < msg.length then
      match msg.substring start stop with
      | none => some ⟨[], true⟩
      | some part =>
        let start := stop
        let sum := start + MAX_LENGTH_OF_SINGLE_MESSAGE
        let stop := if sum ≤ msg.length then sum else msg.length
        (printLoop level tag msg turns start stop).map fun printed =>
          { printed with lines := doPrint level tag part :: printed.lines }
    else some ⟨[], false⟩

/-- `printInner`. -/
def printInner (turns : Nat) (level : Level) (tag : Utf16) (msg : JavaString) : Option Printed :=
  if msg.length ≤ MAX_LENGTH_OF_SINGLE_MESSAGE then some ⟨[doPrint level tag msg.units], false⟩
  else printLoop level tag msg turns 0 MAX_LENGTH_OF_SINGLE_MESSAGE

end Dolin.Zap
