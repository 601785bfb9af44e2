import Dolin.Base.JavaString
import Dolin.Zap.Print

/-!
# The lines of a log

`DateFileFormatter.java` and `getShortLevelName` of `LevelUtils.java`. The formatter keeps one buffer:
in front the date it formatted last, and behind it the rest of the last line. What `SimpleDateFormat`
makes of an instant is a parameter, and so is every reading of the clock.
-/

namespace Dolin.Zap

/-- `getShortLevelName`. -/
def getShortLevelName : Level → Utf16
  | .none | .debug => utf16 ['D']
  | .info => utf16 ['I']
  | .warning => utf16 ['W']
  | .error => utf16 ['E']

/-- What `append` adds for a string, which may be null. -/
def appended : Option Utf16 → Utf16
  | some text => text
  | none => utf16 ['n', 'u', 'l', 'l']

/-- `DateFileFormatter`. `date` is its instant in milliseconds. -/
structure DateFileFormatter where
  date : Int64
  lastDateFormatted : Utf16
  stringBuffer : Utf16
  timeLength : Nat

/-- A call of `format`, with what the clock says when it is asked, and when it is asked again. -/
structure FormatCall where
  level : Level
  tag : Option Utf16
  msg : Option Utf16
  now : Int64
  again : Int64

namespace DateFileFormatter

/-- The constructor. The seconds are set on another `Calendar`. -/
def new (now : Int64) : DateFileFormatter := ⟨now, [], [], 0⟩

/-- `resetTimePrefix`. -/
def resetTimePrefix (f : DateFileFormatter) : DateFileFormatter :=
  let buffer :=
    if 0 < f.stringBuffer.length then deleteUnits f.stringBuffer 0 f.stringBuffer.length
    else f.stringBuffer
  let buffer := buffer ++ f.lastDateFormatted ++ utf16 [' ']
  { f with stringBuffer := buffer, timeLength := buffer.length }

/-- `formatString`. -/
def formatString (f : DateFileFormatter) (level : Level) (tag msg : Option Utf16) :
    DateFileFormatter × Utf16 :=
  let buffer :=
    if f.timeLength < f.stringBuffer.length then
      deleteUnits f.stringBuffer f.timeLength f.stringBuffer.length
    else f.stringBuffer
  let buffer := buffer ++ utf16 ['['] ++ getShortLevelName level ++ utf16 [']'] ++ appended tag ++
    utf16 [':', ' '] ++ appended msg ++ utf16 ['\n']
  ({ f with stringBuffer := buffer }, buffer)

/-- The test of `format`. The difference is taken as a `long`. -/
def stale (f : DateFileFormatter) (now : Int64) : Bool :=
  1000 < now - f.date || f.lastDateFormatted.isEmpty

/-- The formatter with another date. -/
def refresh (simpleDateFormat : Int64 → Utf16) (f : DateFileFormatter) (again : Int64) :
    DateFileFormatter :=
  resetTimePrefix { f with date := again, lastDateFormatted := simpleDateFormat again }

/-- `format`. -/
def format (simpleDateFormat : Int64 → Utf16) (f : DateFileFormatter) (call : FormatCall) :
    DateFileFormatter × Utf16 :=
  let f := if f.stale call.now then f.refresh simpleDateFormat call.again else f
  f.formatString call.level call.tag call.msg

end DateFileFormatter

end Dolin.Zap
