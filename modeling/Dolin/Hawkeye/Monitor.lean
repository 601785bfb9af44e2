import Mathlib.Data.List.Basic

/-!
# The Java side of the crash monitor

`BoostCrashHandler.java`, `ActivityMonitor.java` and the exception path of `JavaCrashHandler.java`:
what the application's callbacks do to the list of activities, and which native methods they call.
Each method gives its native calls in order.

`finishAllActivities` leaves `activities` null. A callback that goes on with it throws, and on
Android an exception that a callback throws is an uncaught exception of the main thread.
-/

namespace Dolin.Hawkeye

/-- A call of a native method of `BoostCrashHandler`. -/
inductive NativeMethod where
  | record2Buffer (bufferPtr : Int64) (content : String)
  | flushLog2File (bufferPtr : Int64) (path : String)
  | releaseBuffer (bufferPtr : Int64)
  | releaseCxxCrashDaemon
  deriving DecidableEq

/-- `BoostCrashHandler`. -/
structure BoostCrashHandler where
  javaCrashPtr : Int64 := 0
  anrCrashPtr : Int64 := 0

namespace BoostCrashHandler

/-- `record`. -/
def record (h : BoostCrashHandler) (content : String) (isAnr : Bool) : List NativeMethod :=
  if isAnr then [.record2Buffer h.anrCrashPtr content] else [.record2Buffer h.javaCrashPtr content]

/-- `flush`. -/
def flush (h : BoostCrashHandler) (path : String) (isAnr : Bool) : List NativeMethod :=
  if isAnr then [.flushLog2File h.anrCrashPtr path] else [.flushLog2File h.javaCrashPtr path]

/-- `release`. The pointers stay. -/
def release (h : BoostCrashHandler) : List NativeMethod :=
  (if h.javaCrashPtr ≠ 0 then [.releaseBuffer h.javaCrashPtr] else []) ++
    (if h.anrCrashPtr ≠ 0 then [.releaseBuffer h.anrCrashPtr] else []) ++ [.releaseCxxCrashDaemon]

end BoostCrashHandler

namespace Monitor

variable {A : Type}

def MAX_ACTIVITY_NUM : Nat := 100

/-- The application after `Hawkeye.initialize`. `running` is false once the process is killed. -/
structure State (A : Type) where
  boost : BoostCrashHandler
  activities : Option (List A) := some []
  isAppForeground : Bool := false
  activityReferences : Int32 := 0
  isActivityChangingConfigurations : Bool := false
  running : Bool := true

/-- What the system calls. An uncaught exception comes with the report that `handleException` puts
together and the path it makes up. -/
inductive Event (A : Type) where
  | onActivityCreated (activity : A)
  | onActivityStarted (activity : A)
  | onActivityResumed (activity : A)
  | onActivityPaused (activity : A) (isChangingConfigurations : Bool)
  | onActivityStopped (activity : A)
  | onActivitySaveInstanceState (activity : A)
  | onActivityDestroyed (activity : A)
  | uncaughtException (report logPath : String)

namespace State

/-- `finishAllActivities`. -/
def finishAllActivities (s : State A) : State A × List NativeMethod :=
  ({ s with activities := none }, s.boost.release)

/-- `uncaughtException`: the report is recorded and flushed, everything is finished, and the process
is killed. -/
def uncaughtException (s : State A) (report logPath : String) : State A × List NativeMethod :=
  ({ s.finishAllActivities.1 with running := false },
    s.boost.record report false ++ s.boost.flush logPath false ++ s.finishAllActivities.2)

/-- `addFirst`, and `removeLast` where there are too many. -/
def tracked (activity : A) (activities : List A) : List A :=
  if (activity :: activities).length > MAX_ACTIVITY_NUM then (activity :: activities).dropLast
  else activity :: activities

/-- The callback `onActivityCreated`; `none` where it throws. -/
def onActivityCreated (s : State A) (activity : A) : Option (State A) :=
  s.activities.map fun activities => { s with activities := some (tracked activity activities) }

/-- The callback `onActivityResumed`. -/
def onActivityResumed (s : State A) : State A :=
  let activityReferences := s.activityReferences + 1
  { s with
    activityReferences
    isAppForeground := s.isAppForeground ||
      (activityReferences = 1 && !s.isActivityChangingConfigurations) }

/-- The callback `onActivityPaused`. -/
def onActivityPaused (s : State A) (isChangingConfigurations : Bool) : State A :=
  let activityReferences := s.activityReferences - 1
  { s with
    activityReferences
    isActivityChangingConfigurations := isChangingConfigurations
    isAppForeground := s.isAppForeground &&
      !(activityReferences = 0 && !isChangingConfigurations) }

/-- The callback `onActivityDestroyed`. The activity stays in the list. -/
def onActivityDestroyed (s : State A) : State A × List NativeMethod :=
  match s.activities with
  | some [_] => s.finishAllActivities
  | _ => (s, [])

end State

/-- What an event does while the process runs. The report and the path of the exception that a
callback throws are `npe`'s. -/
def handle (npe : String × String) (s : State A) : Event A → State A × List NativeMethod
  | .onActivityCreated activity =>
    match s.onActivityCreated activity with
    | some s' => (s', [])
    | none => s.uncaughtException npe.1 npe.2
  | .onActivityResumed _ => (s.onActivityResumed, [])
  | .onActivityPaused _ isChangingConfigurations => (s.onActivityPaused isChangingConfigurations, [])
  | .onActivityDestroyed _ => s.onActivityDestroyed
  | .uncaughtException report logPath => s.uncaughtException report logPath
  | .onActivityStarted _ | .onActivityStopped _ | .onActivitySaveInstanceState _ => (s, [])

/-- The native calls of a list of events. Nothing happens in a process that was killed. -/
def trace (npe : String × String) : State A → List (Event A) → List NativeMethod
  | _, [] => []
  | s, e :: events =>
    if s.running then (handle npe s e).2 ++ trace npe (handle npe s e).1 events else []

end Monitor

end Dolin.Hawkeye
