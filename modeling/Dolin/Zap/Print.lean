import Dolin.Zap.Record

/-!
# The public calls

`Zap.java`, `ZapPrint.java` and `ZapLifecycle.java`: the calls an application makes and the callback
Android makes, on the three singletons and the flag of `Zap`. They run one after the other. A null
argument that the code dereferences ends the call with what it had done so far; the caller may catch
the exception and go on.

What the file system, the clock and the native side answer is an argument of each call. The line that
a log call records is what `DateFileFormatter` makes of it.
-/

namespace Dolin.Zap

/-- `Level`. -/
inductive Level where
  | none
  | debug
  | info
  | warning
  | error
  deriving DecidableEq

/-- `Level.ordinal()`. -/
def Level.ordinal : Level → Nat
  | .none => 0
  | .debug => 1
  | .info => 2
  | .warning => 3
  | .error => 4

/-- `Config`, with the defaults of its builder. A level may be null. -/
structure Config where
  logFolderDir : String := ""
  logcatLevel : Option Level := some .debug
  recordLevel : Option Level := some .debug
  recordEnable : Bool := true
  compressEnable : Bool := true
  fileSizeLimitDayByte : Int32 := 15 * 1024 * 1024

/-- `Config.Builder`. -/
structure Config.Builder where
  logFolderDir : String := ""
  logcatLevel : Option Level := some .debug
  recordLevel : Option Level := some .debug
  recordEnable : Bool := true
  compressEnable : Bool := true
  fileSizeLimitDay : Int32 := 15

namespace Config.Builder

/-- `setFileSizeLimitDay`. The unit is a megabyte. -/
def setFileSizeLimitDay (b : Builder) (fileSizeLimitDay : Int32) : Builder :=
  { b with fileSizeLimitDay }

/-- `create`. The product is taken as an `int`. -/
def create (b : Builder) : Config :=
  { logFolderDir := b.logFolderDir
    logcatLevel := b.logcatLevel
    recordLevel := b.recordLevel
    recordEnable := b.recordEnable
    compressEnable := b.compressEnable
    fileSizeLimitDayByte := b.fileSizeLimitDay * 1024 * 1024 }

end Config.Builder

/-- `ZapPrint`. -/
structure ZapPrint where
  hasInitialized : Bool := false
  recordEnable : Bool := true
  logcatLevel : Option Level := some .debug
  recordLevel : Option Level := some .debug

/-- `ZapLifecycle`: whether its `application` is set, and whether Android holds its callback. -/
structure ZapLifecycle where
  application : Bool := false
  registered : Bool := false

/-- The flag of `Zap` and the singletons. -/
structure Singletons where
  hasInitialized : Bool := false
  print : ZapPrint := {}
  record : ZapRecord := {}
  lifecycle : ZapLifecycle := {}

/-- What `ZapPrint.initialize` is told: the date, the default folder, the directory of the day, the
number of files in it, and the answer of `initNative`. -/
structure InitAnswers where
  date : String := ""
  folder : String := ""
  logPath : String := ""
  num : Int32 := 0
  native : Option Int64

/-- The public calls and the callback. `application` says that the argument is not null. -/
inductive ZapCall where
  | initializeZap (application : Bool) (config : Option Config) (answers : InitAnswers)
  | d (line : String)
  | i (line : String)
  | w (line : String)
  | e (line : String)
  | recycle (overSize : Bool)
  | activityPaused (overSize : Bool)

/-- `registerZapLifeCallback`: the field is set first, and a null application then throws. -/
def ZapLifecycle.registerZapLifeCallback (l : ZapLifecycle) (application : Bool) : ZapLifecycle :=
  { application, registered := l.registered || application }

/-- `unregisterZapLifeCallback`. -/
def ZapLifecycle.unregisterZapLifeCallback (l : ZapLifecycle) : ZapLifecycle :=
  if l.application then { application := false, registered := false } else l

namespace ZapPrint

/-- The first lines of `initialize`. -/
def configure (p : ZapPrint) (config : Config) : ZapPrint :=
  { p with
    logcatLevel := config.logcatLevel, recordLevel := config.recordLevel,
    recordEnable := config.recordEnable }

/-- The comparison of `interceptLogcat` and `interceptRecord`: `none` where the level set is null. -/
def intercept (least : Option Level) (level : Level) : Option Bool :=
  least.map fun least => decide (level.ordinal < least.ordinal)

def interceptLogcat (p : ZapPrint) (level : Level) : Option Bool := intercept p.logcatLevel level

def interceptRecord (p : ZapPrint) (level : Level) : Option Bool := intercept p.recordLevel level

/-- `print` records: neither comparison throws, and the second lets the level through. -/
def records (p : ZapPrint) (level : Level) : Bool :=
  p.recordEnable && (p.interceptLogcat level).isSome && p.interceptRecord level == some false

/-- `print`, as far as the record goes. -/
def print (p : ZapPrint) (record : ZapRecord) (level : Level) (line : String) : List JniCall :=
  match p.interceptLogcat level, p.interceptRecord level with
  | some _, some false => if p.recordEnable then record.write line else []
  | _, _ => []

end ZapPrint

namespace Singletons

/-- The part of `ZapPrint.initialize` under `if (recordEnable)`. -/
def initRecord (s : Singletons) (application : Bool) (config : Config) (answers : InitAnswers) :
    Singletons × List JniCall :=
  let folder := if config.logFolderDir.isEmpty then answers.folder else config.logFolderDir
  let (record, calls) := s.record.init (folder ++ "/zap.cache") answers.logPath answers.date
    (1024 * 400) config.fileSizeLimitDayByte config.compressEnable answers.num answers.native
  ({ s with record, lifecycle := s.lifecycle.registerZapLifeCallback application }, calls)

/-- The last lines of `ZapPrint.initialize` and of `Zap.initialize`. -/
def initialized (s : Singletons) : Singletons :=
  { s with hasInitialized := true, print := { s.print with hasInitialized := true } }

/-- `ZapPrint.initialize` where it has not run to its end before, and `Zap.initialize` around it. -/
def initializePrint (s : Singletons) (application : Bool) (config : Config) (answers : InitAnswers) :
    Singletons × List JniCall :=
  let s := { s with print := s.print.configure config }
  -- `getLogFolderDir(application)`
  if config.logFolderDir.isEmpty && !application then (s, [])
  else if config.recordEnable then
    let (s, calls) := s.initRecord application config answers
    if application then (s.initialized, calls) else (s, calls)
  else (s.initialized, [])

/-- `Zap.d`, `i`, `w` and `e`. -/
def log (s : Singletons) (level : Level) (line : String) : List JniCall :=
  if s.hasInitialized then s.print.print s.record level line else []

/-- `ZapPrint.recycle`. -/
def recycle (s : Singletons) (overSize : Bool) : Singletons × List JniCall :=
  let lifecycle := s.lifecycle.unregisterZapLifeCallback
  let (record, calls) := if s.print.recordEnable then s.record.asyncFlush overSize else (s.record, [])
  ({ s with lifecycle, record }, calls ++ record.release)

/-- `onActivityPaused`, which Android calls while the callback is registered. -/
def onActivityPaused (s : Singletons) (overSize : Bool) : Singletons × List JniCall :=
  if s.lifecycle.registered then
    let (record, calls) := s.record.asyncFlush overSize
    ({ s with record }, calls)
  else (s, [])

/-- One call. -/
def step (s : Singletons) : ZapCall → Singletons × List JniCall
  | .initializeZap application config answers =>
    if s.print.hasInitialized then ({ s with hasInitialized := true }, [])
    else
      match config with
      | some config => s.initializePrint application config answers
      | none => (s, [])
  | .d line => (s, s.log .debug line)
  | .i line => (s, s.log .info line)
  | .w line => (s, s.log .warning line)
  | .e line => (s, s.log .error line)
  | .recycle overSize => if s.hasInitialized then s.recycle overSize else (s, [])
  | .activityPaused overSize => s.onActivityPaused overSize

/-- The native calls of a sequence of public calls. -/
def trace (s : Singletons) : List ZapCall → List JniCall
  | [] => []
  | call :: calls => (s.step call).2 ++ trace (s.step call).1 calls

end Singletons

end Dolin.Zap
