import Dolin.Base.JavaString

/-!
# The other threads in a Java crash report

`getOtherThreadsInfo` and `matchThreadName` of `JavaCrashHandler.java`. A pattern of the white list is
what it says of a name. `Thread.getAllStackTraces` gives a map from threads, which are the same only where
they are the same object; the loop goes through it in the order of its iteration.
-/

namespace Dolin.Hawkeye

/-- `Thread`. `object` tells the objects apart, `id` is `getId()`. -/
structure JavaThread where
  object : Nat
  name : Utf16
  id : Nat

/-- An entry of the map: a thread and the texts of its `StackTraceElement`s. -/
structure StackTrace where
  thread : JavaThread
  elements : List Utf16

/-- `Map<Thread, StackTraceElement[]>`. -/
structure AllStackTraces where
  entries : List StackTrace
  distinct : (entries.map (·.thread.object)).Nodup

/-- What the handler knows of the process. -/
structure HandlerInfo where
  pid : Nat
  processName : Utf16
  dumpAllThreadsWhiteList : List (Utf16 → Bool)

/-- A number in decimal. -/
def decimal16 (n : Nat) : Utf16 := utf16 (Nat.toDigits 10 n)

/-- `LogUtils.SEP_OTHER_INFO`. -/
def SEP_OTHER_INFO : Utf16 :=
  utf16 "--- --- --- --- --- --- --- --- --- --- --- --- --- --- --- ---".toList

/-- `matchThreadName`. -/
def matchThreadName (whiteList : List (Utf16 → Bool)) (threadName : Utf16) : Bool :=
  whiteList.any fun pattern => pattern threadName

/-- What is written about a thread. -/
def threadSection (info : HandlerInfo) (entry : StackTrace) : Utf16 :=
  SEP_OTHER_INFO ++ utf16 ['\n'] ++ utf16 "pid: ".toList ++ decimal16 info.pid ++
    utf16 ", tid: ".toList ++ decimal16 entry.thread.id ++ utf16 ", name: ".toList ++
    entry.thread.name ++ utf16 " >>> ".toList ++ info.processName ++ utf16 " <<<\n".toList ++
    utf16 ['\n'] ++ utf16 "java stacktrace:\n".toList ++
    entry.elements.flatMap (fun element => utf16 "    at ".toList ++ element ++ utf16 ['\n']) ++
    utf16 ['\n']

/-- The variables of `getOtherThreadsInfo`. -/
structure ThreadCounts where
  thdMatchedRegex : Nat := 0
  thdIgnoredByLimit : Nat := 0
  thdDumped : Nat := 0
  sb : Utf16 := []

/-- The body of the loop. -/
def visitThread (info : HandlerInfo) (crashedThread : JavaThread) (s : ThreadCounts)
    (entry : StackTrace) : ThreadCounts :=
  -- skip the crashed thread
  if entry.thread.name = crashedThread.name then s
  -- check regex for thread name
  else if ¬ matchThreadName info.dumpAllThreadsWhiteList entry.thread.name then s
  else
    let s := { s with thdMatchedRegex := s.thdMatchedRegex + 1 }
    -- check dump count limit
    if 10 ≤ s.thdDumped then { s with thdIgnoredByLimit := s.thdIgnoredByLimit + 1 }
    else { s with sb := s.sb ++ threadSection info entry, thdDumped := s.thdDumped + 1 }

/-- What is written behind the loop, for a map of `size` threads. -/
def threadTotals (size thdMatchedRegex thdIgnoredByLimit thdDumped : Nat) : Utf16 :=
  (if thdDumped = 0 then SEP_OTHER_INFO ++ utf16 ['\n'] else []) ++
    utf16 "total JVM threads (exclude the crashed thread): ".toList ++ decimal16 (size - 1) ++
    utf16 "\nJVM threads matched white list: ".toList ++ decimal16 thdMatchedRegex ++
    utf16 "\nJVM threads ignored by max count limit: ".toList ++ decimal16 thdIgnoredByLimit ++
    utf16 "\ndumped JVM threads: ".toList ++ decimal16 thdDumped ++
    (utf16 ['\n'] ++ SEP_OTHER_INFO ++ utf16 ['\n'])

/-- `getOtherThreadsInfo`. -/
def getOtherThreadsInfo (info : HandlerInfo) (map : AllStackTraces) (crashedThread : JavaThread) :
    Utf16 :=
  let s := map.entries.foldl (visitThread info crashedThread) {}
  if 1 < map.entries.length then
    s.sb ++
      threadTotals map.entries.length s.thdMatchedRegex s.thdIgnoredByLimit s.thdDumped
  else s.sb

end Dolin.Hawkeye
