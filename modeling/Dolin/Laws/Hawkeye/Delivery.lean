import Dolin.Laws.Hawkeye.Daemon
import Dolin.Laws.Hawkeye.MmapGuard
import Dolin.Hawkeye.Report

/-!
# Which crashes get their report

The daemon goes on accepting messages, but the first report deletes the report buffer and nothing
makes a new one: of the messages that follow, none leaves a byte in any file. And `crash_callback`
is called with the folder, not with the file.
-/

namespace Dolin.Hawkeye.Daemon

open Region MmapGuard

variable {context : Context} {files : Files} {folder : Bytes} {w : World} {message : CrashMessage}
  {g : MmapGuard}

/-! ## The report of a message -/

/-- The crashing thread of the message can be attached. -/
def attaches (input : World × CrashMessage) : Bool := ptraceAttach (input.1.ptrace [] input.2.tid)

/-- The report of a message: what it leaves in the report buffer. -/
def reportText (g : MmapGuard) (w : World) (message : CrashMessage) : Bytes :=
  cstring (recordedGuard w message g).bytes

/-- The report buffer of a daemon that has just been started. -/
def Fresh (g : MmapGuard) : Prop := ∃ m, Holds (mappingSize (400 * 1024)) 0 g m

theorem length_SEP_HEAD : SEP_HEAD.length = 63 := rfl

/-- A report begins with the marker line of its header. -/
theorem header_prefix_reportText (fresh : Fresh g) (w : World) (message : CrashMessage) :
    SEP_HEAD ++ [0x0a] <+: reportText g w message := by
  obtain ⟨m, holds⟩ := fresh
  have short : SEP_HEAD.length < HAWKEYE_LOG_BUFFER_SIZE := by
    rw [length_SEP_HEAD, HAWKEYE_LOG_BUFFER_SIZE]
    omega
  have room : SEP_HEAD.length < mappingSize (400 * 1024) := by
    rw [length_SEP_HEAD, mappingSize_eq_max]
    omega
  have line := line_prefix_recordNewline holds (by decide) (by decide) short room
    (w.behind .header)
  exact line.trans (cstring_prefix_performAll _ _)

theorem reportText_ne_nil (fresh : Fresh g) (w : World) (message : CrashMessage) :
    reportText g w message ≠ [] := by
  intro nil
  have line := header_prefix_reportText fresh w message
  rw [nil, List.prefix_nil] at line
  cases line

/-- The path of the report is the folder's own path only where the folder fills the whole buffer. -/
theorem crashLogPath_eq_iff (folder : Bytes) (crashTime : Int) :
    crashLogPath folder crashTime = folder ↔ folder.length = 255 := by
  rw [crashLogPath, snprintf256]
  have pos : 0 < (ascii "/hawkeye_".toList ++ ascii (format020 crashTime) ++
      ascii ".native.crash".toList).length := by
    rw [List.length_append]
    exact Nat.add_pos_right _ (by decide)
  generalize ascii "/hawkeye_".toList ++ ascii (format020 crashTime) ++
    ascii ".native.crash".toList = name at pos
  constructor
  · intro same
    have length := congrArg List.length same
    rw [List.length_take, List.length_append] at length
    omega
  · intro full
    exact List.take_left' full

/-! ## One message -/

/-- The message, with the world that it was handled in. -/
def Handled.input (h : Handled) : World × CrashMessage := (h.world, h.message)

/-- The `log_file_path` that is computed for the message. -/
def Handled.path (folder : Bytes) (h : Handled) : Bytes := crashLogPath folder h.world.crashTime

/-- What every message leaves: `DaemonCreateReport` returns whether the thread was attached, and the
context keeps the folder. -/
structure Round (folder : Bytes) (h : Handled) : Prop where
  returned : h.report.returned = attaches h.input
  folder_eq : h.report.context.logFolderPath = some folder

/-- The message leaves no trace in the files. -/
structure Silent (folder : Bytes) (h : Handled) : Prop extends Round folder h where
  files_eq : h.report.files = h.before

/-- The message leaves its report behind what was in its file. -/
structure Flushed (folder : Bytes) (g : MmapGuard) (h : Handled) : Prop extends Round folder h where
  files_eq : h.report.files = Function.update h.before (h.path folder)
    (some ((h.before (h.path folder)).getD [] ++ reportText g h.world h.message))

theorem Round.crashCallback {h : Handled} (round : Round folder h) (attached : attaches h.input = true) :
    crashCallback h.report = some folder := by
  rw [Daemon.crashCallback, round.returned, attached, if_pos rfl, round.folder_eq]

/-- A message whose thread is not attached, or that finds no buffer, is silent. -/
theorem daemonCreateReport_silent (inFolder : context.logFolderPath = some folder) (files : Files)
    (w : World) (message : CrashMessage)
    (quiet : attaches (w, message) = false ∨ context.mmapGuard = none) :
    ∃ report, daemonCreateReport w context files message = some report ∧
      Silent folder ⟨w, message, files, report⟩ ∧ report.context.mmapGuard = context.mmapGuard := by
  unfold daemonCreateReport
  by_cases attached : ptraceAttach (w.ptrace [] message.tid) = true
  · rw [if_pos attached]
    rcases quiet with failed | deleted
    · rw [attaches, attached] at failed
      cases failed
    · simp only [Context.withLogFilePath, inFolder, flushReport, deleted, Option.map_some]
      exact ⟨_, rfl, ⟨⟨attached.symm, rfl⟩, rfl⟩, rfl⟩
  · rw [if_neg attached]
    exact ⟨_, rfl, ⟨⟨(Bool.not_eq_true _ ▸ attached).symm, inFolder⟩, rfl⟩, rfl⟩

/-- The first message whose thread is attached flushes the buffer, which is then deleted. -/
theorem daemonCreateReport_flushed (inFolder : context.logFolderPath = some folder)
    (buffer : context.mmapGuard = some g) (fresh : Fresh g) (files : Files) (w : World)
    (message : CrashMessage) (opens : w.opens = true) (attached : attaches (w, message) = true) :
    ∃ report, daemonCreateReport w context files message = some report ∧
      Flushed folder g ⟨w, message, files, report⟩ ∧ report.context.mmapGuard = none := by
  obtain ⟨m, holds⟩ := fresh
  obtain ⟨m', mapped⟩ := performAll_mapped holds.ptr
    ((reportParts w message).flatMap (Part.calls w message))
  rw [← recordedGuard] at mapped
  unfold daemonCreateReport
  rw [if_pos (show ptraceAttach (w.ptrace [] message.tid) = true from attached)]
  simp only [Context.withLogFilePath, inFolder, flushReport, buffer, flush, opens, mapped, if_true,
    Option.map_some]
  exact ⟨_, rfl, ⟨⟨attached.symm, rfl⟩, rfl⟩, rfl⟩

/-! ## All messages -/

theorem acceptAll_cons {report : Report} {messages : List (World × CrashMessage)} {all : List Handled}
    (first : daemonCreateReport w context files message = some report)
    (rest : acceptAll report.context report.files messages = some all)
    (inputs : all.map Handled.input = messages) :
    acceptAll context files ((w, message) :: messages) = some (⟨w, message, files, report⟩ :: all) ∧
      (⟨w, message, files, report⟩ :: all).map Handled.input = (w, message) :: messages := by
  constructor
  · simp only [acceptAll, first, rest, Option.map_some]
  · rw [List.map_cons, inputs]
    rfl

/-- Once the buffer is deleted, every message is silent. -/
theorem acceptAll_silent (inFolder : context.logFolderPath = some folder)
    (deleted : context.mmapGuard = none) (files : Files) (messages : List (World × CrashMessage)) :
    ∃ all, acceptAll context files messages = some all ∧ all.map Handled.input = messages ∧
      ∀ h ∈ all, Silent folder h := by
  induction messages generalizing context files with
  | nil => exact ⟨[], rfl, rfl, List.forall_mem_nil _⟩
  | cons input messages ih =>
    obtain ⟨w, message⟩ := input
    obtain ⟨report, eq, silent, same⟩ := daemonCreateReport_silent inFolder files w message
      (.inr deleted)
    obtain ⟨all, rest, inputs, every⟩ := ih silent.folder_eq (same.trans deleted) report.files
    obtain ⟨accepted, inputs'⟩ := acceptAll_cons eq rest inputs
    exact ⟨_, accepted, inputs', List.forall_mem_cons.mpr ⟨silent, every⟩⟩

/-- No thread could be attached, or the first message whose thread could be is the one that is
flushed, and all others are silent. -/
inductive OneFlushed (folder : Bytes) (g : MmapGuard) : List Handled → Prop where
  | none {all : List Handled} (unattached : ∀ h ∈ all, Silent folder h ∧ attaches h.input = false) :
    OneFlushed folder g all
  | first {before : List Handled} {h : Handled} {after : List Handled}
    (unattached : ∀ x ∈ before, Silent folder x ∧ attaches x.input = false)
    (flushed : Flushed folder g h) (attached : attaches h.input = true)
    (silent : ∀ x ∈ after, Silent folder x) : OneFlushed folder g (before ++ h :: after)

/-- **At most one message is flushed.** -/
theorem acceptAll_buffer (inFolder : context.logFolderPath = some folder)
    (buffer : context.mmapGuard = some g) (fresh : Fresh g) (files : Files)
    (messages : List (World × CrashMessage)) (opens : ∀ input ∈ messages, input.1.opens = true) :
    ∃ all, acceptAll context files messages = some all ∧ all.map Handled.input = messages ∧
      OneFlushed folder g all := by
  induction messages generalizing context files with
  | nil => exact ⟨[], rfl, rfl, .none (List.forall_mem_nil _)⟩
  | cons input messages ih =>
    obtain ⟨w, message⟩ := input
    obtain ⟨opened, opens'⟩ := List.forall_mem_cons.mp opens
    cases attached : attaches (w, message) with
    | true =>
      obtain ⟨report, eq, flushed, deleted⟩ := daemonCreateReport_flushed inFolder buffer
        fresh files w message opened attached
      obtain ⟨all, rest, inputs, every⟩ := acceptAll_silent flushed.folder_eq deleted report.files
        messages
      obtain ⟨accepted, inputs'⟩ := acceptAll_cons eq rest inputs
      exact ⟨_, accepted, inputs', .first (List.forall_mem_nil _) flushed attached every⟩
    | false =>
      obtain ⟨report, eq, silent, same⟩ := daemonCreateReport_silent inFolder files w
        message (.inl attached)
      obtain ⟨all, rest, inputs, shape⟩ := ih silent.folder_eq (same.trans buffer) report.files
        opens'
      obtain ⟨accepted, inputs'⟩ := acceptAll_cons eq rest inputs
      refine ⟨_, accepted, inputs', ?_⟩
      cases shape with
      | none unattached => exact .none (List.forall_mem_cons.mpr ⟨⟨silent, attached⟩, unattached⟩)
      | first unattached flushed attached' every =>
        exact .first (List.forall_mem_cons.mpr ⟨⟨silent, attached⟩, unattached⟩) flushed attached' every

/-! ## What a crash is owed -/

/-- The file of the message holds, behind what was there, the message's report, which begins with the
header; no other message touches that file; and `crash_callback` is called with its path. -/
structure Delivered (folder : Bytes) (g : MmapGuard) (others : List Handled) (h : Handled) : Prop where
  contains : h.report.files (h.path folder) =
    some ((h.before (h.path folder)).getD [] ++ reportText g h.world h.message)
  header : SEP_HEAD ++ [0x0a] <+: reportText g h.world h.message
  alone : ∀ x ∈ others, x.report.files (h.path folder) = x.before (h.path folder)
  callback : crashCallback h.report = some (h.path folder)

/-- Every message for which `DaemonCreateReport` returns true gets its report. -/
def AllDelivered (folder : Bytes) (g : MmapGuard) (all : List Handled) : Prop :=
  ∀ before h after, all = before ++ h :: after → h.report.returned = true →
    Delivered folder g (before ++ after) h

/-- A silent message is not delivered. -/
theorem Silent.not_delivered {h : Handled} (silent : Silent folder h) (fresh : Fresh g)
    (others : List Handled) : ¬ Delivered folder g others h := by
  intro delivered
  have contains := delivered.contains
  have ne := reportText_ne_nil fresh h.world h.message
  rw [silent.files_eq] at contains
  cases found : h.before (h.path folder) with
  | none =>
    rw [found] at contains
    cases contains
  | some old =>
    rw [found, Option.getD_some, Option.some.injEq] at contains
    exact ne (List.append_right_eq_self.mp contains.symm)

/-- The flushed message is delivered among silent ones only where its path is the folder's own. -/
theorem Flushed.delivered_iff {h : Handled} {others : List Handled} (flushed : Flushed folder g h)
    (fresh : Fresh g) (attached : attaches h.input = true) (silent : ∀ x ∈ others, Silent folder x) :
    Delivered folder g others h ↔ folder.length = 255 := by
  rw [← crashLogPath_eq_iff folder h.world.crashTime]
  constructor
  · intro delivered
    have callback := delivered.callback
    rw [flushed.crashCallback attached, Option.some.injEq] at callback
    exact callback.symm
  · intro same
    refine ⟨?_, header_prefix_reportText fresh _ _, fun x mem => ?_, ?_⟩
    · rw [flushed.files_eq, Function.update_self]
    · rw [(silent x mem).files_eq]
    · rw [flushed.crashCallback attached]
      exact congrArg some same.symm

/-- Messages whose threads could not be attached are owed nothing. -/
theorem allDelivered_of_unattached {all : List Handled}
    (unattached : ∀ h ∈ all, Silent folder h ∧ attaches h.input = false) :
    AllDelivered folder g all := by
  intro before h after eq returned
  obtain ⟨silent, failed⟩ := unattached h (eq ▸ List.mem_append_right _ List.mem_cons_self)
  rw [silent.returned, failed] at returned
  cases returned

/-- Where a message was flushed, all are delivered only if it is the only one that is owed anything,
and the folder fills the whole path. -/
theorem allDelivered_flushed_iff {before : List Handled} {h : Handled} {after : List Handled}
    (fresh : Fresh g) (unattached : ∀ x ∈ before, Silent folder x ∧ attaches x.input = false)
    (flushed : Flushed folder g h) (attached : attaches h.input = true)
    (silent : ∀ x ∈ after, Silent folder x) :
    AllDelivered folder g (before ++ h :: after) ↔
      folder.length = 255 ∧ ∀ x ∈ after, ¬ attaches x.input = true := by
  have others : ∀ x ∈ before ++ after, Silent folder x := by
    intro x mem
    rcases List.mem_append.mp mem with mem | mem
    · exact (unattached x mem).1
    · exact silent x mem
  constructor
  · intro delivered
    refine ⟨(flushed.delivered_iff fresh attached others).mp
      (delivered before h after rfl (flushed.returned.trans attached)), ?_⟩
    -- a second message whose thread is attached would be silent
    intro x mem second
    obtain ⟨mid, tail, rfl⟩ := List.append_of_mem mem
    have eq : before ++ h :: (mid ++ x :: tail) = (before ++ h :: mid) ++ x :: tail := by
      simp only [List.append_assoc, List.cons_append]
    exact (silent x mem).not_delivered fresh _
      (delivered _ x tail eq ((silent x mem).returned.trans second))
  · rintro ⟨full, only⟩ before' h' after' eq returned
    have right : h' ∉ after := by
      intro mem
      rw [(silent h' mem).returned] at returned
      exact only h' mem returned
    have left : h' ∉ before := by
      intro mem
      rw [(unattached h' mem).1.returned, (unattached h' mem).2] at returned
      cases returned
    obtain ⟨rfl, rfl, rfl⟩ := (List.append_cons_inj_of_notMem left right).mp eq
    exact (flushed.delivered_iff fresh attached others).mpr full

/-- All are delivered where no thread could be attached, or one could and the folder fills the whole
path. -/
theorem OneFlushed.allDelivered_iff {all : List Handled} (shape : OneFlushed folder g all)
    (fresh : Fresh g) :
    AllDelivered folder g all ↔
      (all.map Handled.input).countP attaches = 0 ∨
        folder.length = 255 ∧ (all.map Handled.input).countP attaches = 1 := by
  have zero : ∀ {l : List Handled}, (∀ x ∈ l, Silent folder x ∧ attaches x.input = false) →
      l.countP (attaches ∘ Handled.input) = 0 := by
    intro l unattached
    apply List.countP_eq_zero.mpr
    intro x mem
    rw [Function.comp_apply, (unattached x mem).2]
    exact Bool.false_ne_true
  rw [List.countP_map]
  cases shape with
  | none unattached => exact iff_of_true (allDelivered_of_unattached unattached) (.inl (zero unattached))
  | @first before h after unattached flushed attached silent =>
    rw [allDelivered_flushed_iff fresh unattached flushed attached silent, List.countP_append,
      zero unattached, List.countP_cons_of_pos (p := attaches ∘ Handled.input) attached]
    have only : (∀ x ∈ after, ¬ attaches x.input = true) ↔
        after.countP (attaches ∘ Handled.input) = 0 := List.countP_eq_zero.symm
    rw [only]
    omega

/-! ## A running daemon -/

/-- The context of a daemon whose start succeeded: the folder, and a fresh report buffer. -/
structure Running (folder : Bytes) (g : MmapGuard) (context : Context) : Prop where
  inFolder : context.logFolderPath = some folder
  buffer : context.mmapGuard = some g
  fresh : Fresh g

theorem startPipe_context {s : State} {o : StartOutcome} (started : (startPipe s context o).2 = true) :
    ∃ interrupter, (startPipe s context o).1.daemonContext =
      some { context with interrupter, daemonThread := true } := by
  unfold startPipe at started ⊢
  cases pipe : o.pipe with
  | none =>
    simp only [pipe] at started
    cases started
  | some interrupter =>
    simp only [pipe] at started ⊢
    split
    next fds eq =>
      rw [eq] at started
      cases started
    next fds eq =>
      rw [eq] at started
      cases created : o.pthreadCreate with
      | false =>
        simp only [created, Bool.false_eq_true, if_false] at started
      | true => exact ⟨interrupter, rfl⟩

theorem startDaemon_running {s : State} (name : JString) {folder : JString} {o : StartOutcome}
    (nonempty : folder.utf8 ≠ []) (opens : o.opens = true) (maps : o.maps = true)
    (started : (startDaemon s (some name) (some folder) o).2 = true) :
    ∃ context ∈ (startDaemon s (some name) (some folder) o).1.daemonContext,
      ∃ g ∈ context.mmapGuard, Running folder.utf8 g context := by
  have ready : startDaemon s (some name) (some folder) o =
      startPipe s (newContext name (some folder) o) o := by
    simp only [startDaemon] at started ⊢
    by_cases busy : s.daemonContext.isSome = true
    · rw [if_pos busy] at started
      cases started
    · rw [if_neg busy] at started ⊢
      by_cases empty : name.utf8 = []
      · rw [if_pos empty] at started
        cases started
      · rw [if_neg empty]
  rw [ready] at started ⊢
  obtain ⟨interrupter, eq⟩ := startPipe_context started
  refine ⟨_, eq, new (some (bufferPath folder.utf8)) (400 * 1024) true true, ?_, ?_, ?_,
    _, holds_new _ _⟩
  · simp only [newContext, if_neg nonempty, opens, maps, Option.mem_def]
  · simp only [newContext, if_neg nonempty]
  · simp only [newContext, if_neg nonempty, opens, maps]

/-- **Which crashes get their report.** Let the daemon be started with a folder, and let the calls
for the report buffer and the report files succeed. For every sequence of complete messages, every
message for which `DaemonCreateReport` returns true gets its report, in a file of its own whose path
the callback is given, if and only if no message's crashing thread can be attached, or exactly one
can and the folder's path is 255 bytes long, so that the path of the report is cut to it. -/
theorem all_delivered_iff_none_attached (s : State) (name folder : JString) (o : StartOutcome)
    (files : Files) (messages : List (World × CrashMessage)) (nonempty : folder.utf8 ≠ [])
    (opens : o.opens = true) (maps : o.maps = true)
    (started : (startDaemon s (some name) (some folder) o).2 = true)
    (flushes : ∀ input ∈ messages, input.1.opens = true) :
    ∃ context ∈ (startDaemon s (some name) (some folder) o).1.daemonContext,
      ∃ g ∈ context.mmapGuard, ∃ all, acceptAll context files messages = some all ∧
        (AllDelivered folder.utf8 g all ↔
          messages.countP attaches = 0 ∨
            folder.utf8.length = 255 ∧ messages.countP attaches = 1) := by
  obtain ⟨context, found, g, buffer, running⟩ := startDaemon_running name nonempty opens maps started
  obtain ⟨all, accepted, inputs, shape⟩ := acceptAll_buffer running.inFolder running.buffer
    running.fresh files messages flushes
  refine ⟨context, found, g, buffer, all, accepted, ?_⟩
  rw [shape.allDelivered_iff running.fresh, inputs]

/-- A process with one thread, 7, that crashes at the time given; where the thread is gone it cannot
be attached. -/
def crashAt (crashTime : Int) (gone : Bool) : World × CrashMessage :=
  ({ ptrace := fun attempts tid => if gone || tid ∈ attempts then .attachFails else .stopped
     tasks := [['.'], ['.', '.'], ['7']]
     crashTime
     dump := fun _ _ => [] },
    { pid := 7, tid := 7, signo := 11, siCode := 1, faultAddr := 0, context := [] })

/-- `/d`. -/
def sampleFolder : JString := ⟨[0x2f, 0x64], by decide, by decide⟩

theorem sample_started :
    (startDaemon { fds := fun _ => none } (some sampleName) (some sampleFolder) sampleOutcome).2 = true :=
  startDaemon_of_succeeds rfl (by decide) ⟨rfl, rfl, rfl, rfl⟩

/-- `/d…d`, a folder of 255 bytes: `log_file_path` has no room for anything behind it. -/
def fullFolder : JString := ⟨0x2f :: List.replicate 254 0x64, by decide +kernel, by decide +kernel⟩

/-- In the full folder the one report is delivered, where the second thread is gone before the daemon
attaches, and where both are gone nothing is owed; with two threads to attach to, one report is not
delivered. -/
theorem one_report_delivered :
    ∃ context ∈ (startDaemon { fds := fun _ => none } (some sampleName) (some fullFolder)
        sampleOutcome).1.daemonContext,
      ∃ g ∈ context.mmapGuard,
        (∃ all, acceptAll context (fun _ => none) [crashAt 1 false, crashAt 2 true] = some all ∧
          AllDelivered fullFolder.utf8 g all) ∧
        (∃ all, acceptAll context (fun _ => none) [crashAt 1 true, crashAt 2 true] = some all ∧
          AllDelivered fullFolder.utf8 g all) ∧
        ∃ all, acceptAll context (fun _ => none) [crashAt 1 false, crashAt 2 false] = some all ∧
          ¬ AllDelivered fullFolder.utf8 g all := by
  have started : (startDaemon { fds := fun _ => none } (some sampleName) (some fullFolder) sampleOutcome).2 =
      true := startDaemon_of_succeeds rfl (by decide) ⟨rfl, rfl, rfl, rfl⟩
  obtain ⟨context, found, g, buffer, all, accepted, one⟩ := all_delivered_iff_none_attached
    { fds := fun _ => none } sampleName fullFolder sampleOutcome (fun _ => none)
    [crashAt 1 false, crashAt 2 true] (by decide) rfl rfl started (by simp [crashAt])
  obtain ⟨context₀, found₀, g₀, buffer₀, all₀, accepted₀, gone⟩ := all_delivered_iff_none_attached
    { fds := fun _ => none } sampleName fullFolder sampleOutcome (fun _ => none)
    [crashAt 1 true, crashAt 2 true] (by decide) rfl rfl started (by simp [crashAt])
  obtain ⟨context', found', g', buffer', all', accepted', two⟩ := all_delivered_iff_none_attached
    { fds := fun _ => none } sampleName fullFolder sampleOutcome (fun _ => none)
    [crashAt 1 false, crashAt 2 false] (by decide) rfl rfl started (by simp [crashAt])
  cases Option.mem_unique found found'
  cases Option.mem_unique buffer buffer'
  cases Option.mem_unique found found₀
  cases Option.mem_unique buffer buffer₀
  refine ⟨context, found, g, buffer, ⟨all, accepted, one.mpr (.inr (by decide +kernel))⟩,
    ⟨all₀, accepted₀, gone.mpr (.inl rfl)⟩, all', accepted', ?_⟩
  rw [two]
  decide +kernel

/-- Two processes crash. For both `DaemonCreateReport` returns true and the callback is given the
folder; the file of the second does not exist. -/
theorem second_crash_lost :
    ∃ context ∈ (startDaemon { fds := fun _ => none } (some sampleName) (some sampleFolder)
        sampleOutcome).1.daemonContext,
      ∃ g ∈ context.mmapGuard, ∃ first second,
        acceptAll context (fun _ => none) [crashAt 1 false, crashAt 2 false] = some [first, second] ∧
        first.report.returned = true ∧ crashCallback first.report = some sampleFolder.utf8 ∧
        second.report.returned = true ∧ second.report.files (second.path sampleFolder.utf8) = none ∧
        ¬ AllDelivered sampleFolder.utf8 g [first, second] := by
  have nonempty : sampleFolder.utf8 ≠ [] := by decide
  obtain ⟨context, found, g, buffer, running⟩ := startDaemon_running sampleName nonempty rfl rfl
    sample_started
  obtain ⟨report, eq, flushed, deleted⟩ := daemonCreateReport_flushed running.inFolder running.buffer
    running.fresh (fun _ => none) (crashAt 1 false).1 (crashAt 1 false).2 rfl rfl
  obtain ⟨report', eq', silent, -⟩ := daemonCreateReport_silent flushed.folder_eq report.files
    (crashAt 2 false).1 (crashAt 2 false).2 (.inr deleted)
  have none_left : acceptAll report'.context report'.files [] = some [] := rfl
  obtain ⟨accepted, inputs⟩ := acceptAll_cons eq' none_left rfl
  obtain ⟨accepted', -⟩ := acceptAll_cons eq accepted inputs
  have apart : crashLogPath sampleFolder.utf8 2 ≠ crashLogPath sampleFolder.utf8 1 := by decide +kernel
  refine ⟨context, found, g, buffer, _, _, accepted', flushed.returned, flushed.crashCallback rfl,
    silent.returned, ?_, fun delivered => ?_⟩
  · rw [silent.files_eq]
    change report.files _ = none
    rw [flushed.files_eq]
    exact Function.update_of_ne apart ..
  · exact silent.not_delivered running.fresh _ (delivered [_] _ [] rfl silent.returned)

end Dolin.Hawkeye.Daemon
