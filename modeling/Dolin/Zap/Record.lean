import Mathlib.Data.List.Basic

/-!
# The record object

`ZapRecord.java`: the Java object that holds the pointer to the native buffer and makes every native
call. What the native side answers is an argument: the pointer of `initNative`, or `none` where it
throws and the exception is caught, and the answer of `isLogFileOverSizeNative`. Each method gives
the object afterwards and the native calls it made, in order.
-/

namespace Dolin.Zap

/-- A call of a native method. -/
inductive JniCall where
  | initNative (bufferPath logFilePath : String) (capacity limitSize : Int32) (compress : Bool)
  | writeNative (ptr : Int64) (msg : String)
  | asyncFlushNative (ptr : Int64)
  | expLogFileNative (ptr : Int64) (path : String) (limitSize : Int32)
  | releaseNative (ptr : Int64)
  | isLogFileOverSizeNative (ptr : Int64)
  deriving DecidableEq

/-- `ZapRecord`. -/
structure ZapRecord where
  ptr : Int64 := 0
  logPath : String := ""
  logDate : String := ""
  logFilePath : String := ""
  limitSize : Int32 := 0
  num : Int32 := 1

namespace ZapRecord

/-- The path of a part after the first. -/
def partPath (logPath logDate : String) (num : Int32) : String :=
  logPath ++ "/" ++ logDate ++ "-p" ++ toString num ++ ".zap"

/-- The path `init` starts with. -/
def firstPath (logPath logDate : String) (num : Int32) : String :=
  if num > 1 then partPath logPath logDate num else logPath ++ "/" ++ logDate ++ ".zap"

/-- `init`. `num` is the answer of `getLogFileNumByDate`. -/
def init (r : ZapRecord) (bufferPath logPath logDate : String) (capacity limitSize : Int32)
    (compress : Bool) (num : Int32) (native : Option Int64) : ZapRecord × List JniCall :=
  let logFilePath := firstPath logPath logDate num
  ({ ptr := native.getD r.ptr, logPath, logDate, logFilePath, limitSize, num },
    [.initNative bufferPath logFilePath capacity limitSize compress])

/-- `write`. -/
def write (r : ZapRecord) (msg : String) : List JniCall :=
  if r.ptr ≠ 0 then [.writeNative r.ptr msg] else []

/-- The record once the part in use has reached its limit. -/
def expanded (r : ZapRecord) : ZapRecord :=
  { r with num := r.num + 1, logFilePath := partPath r.logPath r.logDate (r.num + 1) }

/-- `asyncFlush`. -/
def asyncFlush (r : ZapRecord) (overSize : Bool) : ZapRecord × List JniCall :=
  if r.ptr ≠ 0 then
    if overSize then
      (r.expanded, [.isLogFileOverSizeNative r.ptr,
        .expLogFileNative r.ptr r.expanded.logFilePath r.limitSize, .asyncFlushNative r.ptr])
    else (r, [.isLogFileOverSizeNative r.ptr, .asyncFlushNative r.ptr])
  else (r, [])

/-- `release`. The pointer stays. -/
def release (r : ZapRecord) : List JniCall :=
  if r.ptr ≠ 0 then [.releaseNative r.ptr] else []

end ZapRecord

end Dolin.Zap
