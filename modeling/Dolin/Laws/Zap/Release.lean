import Dolin.Laws.Zap.Session
import Dolin.Zap.Deflate

/-!
# Release and the log file

`Buffer::Release` closes the log file, and the flushes on the heap still name it. `ReleaseNative`
takes two ways. With something live it hands the buffer over with the last flush, and the file is
never closed. With nothing live it deletes the buffer at once, whatever is in the queue. `recycle`
goes the second way, with the flush it has just enqueued still ahead of it.

That an enqueued payload gets written is a matter of the platform as well. The worker deletes each
flush, and the destructor is undefined for every flush of every session (`onHeap_not_deletable`): the
payloads behind the first one are written only where `delete[]` lets the process go on.
-/

namespace Dolin.Zap.Session

open Region BufferHeader Machine

variable {Z : Zlib} {abi : Abi} {s s' : Session Z} {a : SessionAction}

/-! ## Where a flush on the heap comes from -/

/-- The application thread takes a flush of `len` bytes from `b`. -/
def Takes (abi : Abi) (s : Session Z) (b : Buffer Z) (after : After) (len : Nat) : Prop :=
  s.app = .callFileFlush after ∧ s.buffer = some b ∧ b.getLength abi = some len ∧ 0 < len

theorem holding_next (after : After) : after.next.holding = [] := by
  cases after <;> rfl

theorem holding_appending (log : Bytes) (n : Option Nat) :
    (AppPc.appending log n).holding = [] := by
  cases n <;> rfl

/-- A step of the application thread outside the queue, with no new flush in its hands. -/
theorem onHeap_of_app {e : BufferFlush} (mem : e ∈ s'.onHeap) (same : s'.fileFlush = s.fileFlush)
    (held : s'.app.holding ⊆ s.app.holding) : e ∈ s.onHeap := by
  simp only [onHeap, same, List.mem_append] at mem ⊢
  rcases mem with pending | holding | carried
  · exact .inl pending
  · exact .inr (.inl (held holding))
  · exact .inr (.inr carried)

/-- A step of the queue: an entry that is new to it comes from the hands of the thread. -/
theorem onHeap_of_queue {act : FileFlush.Action BufferFlush} {e : BufferFlush} (mem : e ∈ s'.onHeap)
    (step : FileFlush.Step s.fileFlush act s'.fileFlush) (own : act.By 0)
    (held : s'.app.holding ⊆ s.app.holding) (called : act = .call 0 e → e ∈ s.app.holding) :
    e ∈ s.onHeap := by
  simp only [onHeap, List.mem_append] at mem ⊢
  rcases mem with pending | holding | carried
  · rcases step.pending own pending with old | pushed
    · exact .inl old
    · exact .inr (.inr pushed)
  · exact .inr (.inl (held holding))
  · rcases step.carries own carried with old | new
    · exact .inr (.inr old)
    · exact .inr (.inl (called new))

/-- A flush on the heap was there before, or was just taken from the buffer. -/
theorem Step.onHeap (o : Orderly s) (h : Step abi s a s') {e : BufferFlush} (mem : e ∈ s'.onHeap) :
    e ∈ s.onHeap ∨ a = .app ∧ ∃ b after len, Takes abi s b after len ∧
      b.endCompress.takeFlush abi len after.release = some e := by
  -- a thread that holds no flush afterwards has none to add
  have nothing : ∀ {pc : AppPc}, pc.holding = [] → pc.holding ⊆ s.app.holding := by
    intro pc empty
    rw [empty]
    exact List.nil_subset _
  cases h with
  | take after b len f pc buffer length pos taken =>
    simp only [Session.onHeap, AppPc.holding, List.mem_append, List.mem_singleton] at mem
    rcases mem with pending | rfl | carried
    · exact .inl (List.mem_append_left _ pending)
    · exact .inr ⟨rfl, b, after, len, ⟨pc, buffer, length, pos⟩, taken⟩
    · exact .inl (List.mem_append_right _ (List.mem_append_right _ carried))
  | write msg pc => exact .inl (onHeap_of_app mem rfl (nothing rfl))
  | flush pc => exact .inl (onHeap_of_app mem rfl (nothing rfl))
  | release pc => exact .inl (onHeap_of_app mem rfl (nothing rfl))
  | expLogFile path limitSize logOpened b b' handed pc buffer rotated =>
    obtain ⟨b₁, -, called⟩ := Buffer.expLogPath_unset (o.unset b buffer) rotated
    cases called
    exact .inl (onHeap_of_app mem rfl (nothing rfl))
  | check msg b empty pc buffer free =>
    refine .inl (onHeap_of_app mem rfl (nothing ?_))
    split <;> rfl
  | delete after b pc buffer length given =>
    exact .inl (onHeap_of_app mem rfl (nothing (holding_next after)))
  | leave after b pc buffer length given =>
    exact .inl (onHeap_of_app mem rfl (nothing (holding_next after)))
  | rewind f after b pc buffer => exact .inl (onHeap_of_app mem rfl (by rw [pc]; exact fun _ h => h))
  | wipe f after b b' pc buffer wiped =>
    exact .inl (onHeap_of_app mem rfl (by rw [pc]; exact fun _ h => h))
  | publish f after b b' pc buffer published =>
    exact .inl (onHeap_of_app mem rfl (by rw [pc]; exact fun _ h => h))
  | append msg b b' writeSize pc buffer put =>
    exact .inl (onHeap_of_app mem rfl (nothing (holding_appending _ _)))
  | move n copied b b' pc buffer moved => exact .inl (onHeap_of_app mem rfl (nothing rfl))
  | finish copied b b' pc buffer published => exact .inl (onHeap_of_app mem rfl (nothing rfl))
  | asyncFlush f after q pc queue =>
    refine .inl (onHeap_of_queue mem queue rfl (nothing rfl) ?_)
    intro called
    cases called
    rw [pc]
    exact List.mem_singleton_self _
  | enqueue after q pc queue =>
    refine .inl (onHeap_of_queue mem queue rfl (nothing ?_) ?_)
    · dsimp only
      split
      · exact holding_next after
      · rfl
    · intro called
      cases called
  | stopFlush q pc queue =>
    refine .inl (onHeap_of_queue mem queue trivial (nothing ?_) ?_)
    · dsimp only
      split <;> rfl
    · intro called
      cases called
  | worker q queue =>
    refine .inl (onHeap_of_queue mem queue trivial (fun _ h => h) ?_)
    intro called
    cases called
  | spurious q queue =>
    refine .inl (onHeap_of_queue mem queue trivial (fun _ h => h) ?_)
    intro called
    cases called

/-- Only the deletion of the buffer closes a file. -/
theorem Step.closed (h : Step abi s a s') :
    s'.closed = s.closed ∨ a = .app ∧ ∃ b after, s.app = .callFileFlush after ∧ s.buffer = some b ∧
      b.getLength abi = some 0 ∧ after.release = true ∧ s'.closed = s.closed ++ b.logFilePtr.toList := by
  cases h with
  | delete after b pc buffer length given =>
    exact .inr ⟨rfl, b, after, pc, buffer, length, given, rfl⟩
  | _ => exact .inl rfl

/-- `Flush` runs where the worker stands at it, on the entry in its hand. -/
theorem Step.flushes (h : Step abi s a s') :
    s'.fileFlush.flushed = s.fileFlush.flushed ∨ a = .worker ∧ ∃ f, s.fileFlush.worker = .flush f ∧
      s'.fileFlush.flushed = s.fileFlush.flushed ++ [f] := by
  cases h with
  | worker q queue =>
    cases queue with
    | flush f pc => exact .inr ⟨rfl, f, pc, rfl⟩
    | _ => exact .inl rfl
  | asyncFlush f after q pc queue => exact .inl (by cases queue; rfl)
  | enqueue after q pc queue => exact .inl (by cases queue <;> rfl)
  | stopFlush q pc queue => exact .inl (by cases queue <;> rfl)
  | spurious q queue => exact .inl (by cases queue; rfl)
  | _ => exact .inl rfl

/-- The flush that the worker stands at is on the heap. -/
theorem onHeap_of_flush {f : BufferFlush} (pc : s.fileFlush.worker = .flush f) : f ∈ s.onHeap := by
  rw [onHeap, FileFlush.State.pending, pc]
  exact List.mem_cons_self

theorem Step.flushed (h : Step abi s a s') {e : BufferFlush} (mem : e ∈ s'.fileFlush.flushed) :
    e ∈ s.fileFlush.flushed ∨ e ∈ s.onHeap := by
  rcases h.flushes with same | ⟨-, f, pc, more⟩
  · exact .inl (same ▸ mem)
  · rw [more, List.mem_append, List.mem_singleton] at mem
    rcases mem with old | rfl
    · exact .inl old
    · exact .inr (onHeap_of_flush pc)

/-! ## The condition -/

/-- `CallFileFlush` takes from the buffer only with its log file open, and where `ReleaseNative`
finds nothing live, no flush to that file is in the queue or in the worker's hand. -/
def ReleaseSafe (abi : Abi) (s : Session Z) : SessionAction → Prop
  | .app =>
    match s.app, s.buffer with
    | .callFileFlush after, some b =>
      if b.getLength abi = some 0 then
        after.release = true → ∀ e ∈ s.fileFlush.pending, e.logFilePtr ≠ b.logFilePtr
      else b.logFilePtr ≠ none
    | _, _ => True
  | _ => True

instance (s : Session Z) (a : SessionAction) : Decidable (ReleaseSafe abi s a) := by
  unfold ReleaseSafe
  split
  · split <;> infer_instance
  · infer_instance

theorem ReleaseSafe.opened (safe : ReleaseSafe abi s .app) {b : Buffer Z} {after : After} {len : Nat}
    (takes : Takes abi s b after len) : ∃ file, b.logFilePtr = some file := by
  obtain ⟨pc, buffer, length, pos⟩ := takes
  have live : ¬ b.getLength abi = some 0 := by
    rw [length]
    intro zero
    cases zero
    exact Nat.lt_irrefl 0 pos
  simp only [ReleaseSafe, pc, buffer, if_neg live] at safe
  exact Option.ne_none_iff_exists'.mp safe

theorem ReleaseSafe.pending (safe : ReleaseSafe abi s .app) {b : Buffer Z} {after : After}
    (pc : s.app = .callFileFlush after) (buffer : s.buffer = some b)
    (length : b.getLength abi = some 0) (given : after.release = true) :
    ∀ e ∈ s.fileFlush.pending, e.logFilePtr ≠ b.logFilePtr := by
  simp only [ReleaseSafe, pc, buffer, if_pos length] at safe
  exact safe given

/-! ## Every flush names an open file -/

/-- The flush is bound to a file that the session has not closed. -/
def Opened (s : Session Z) (e : BufferFlush) : Prop :=
  ∃ file, e.logFilePtr = some file ∧ file ∉ s.closed

/-- What every step that meets the condition keeps. -/
structure FilesOpen (s : Session Z) : Prop where
  orderly : Orderly s
  heap : ∀ e ∈ s.onHeap, Opened s e ∧ 0 < e.getLength
  flushed : ∀ e ∈ s.fileFlush.flushed, ∃ file, e.logFilePtr = some file

/-- A step that closes a file closes none that a flush on the heap names. -/
theorem FilesOpen.still_opened (o : FilesOpen s) (safe : ReleaseSafe abi s a) (h : Step abi s a s')
    {e : BufferFlush} (mem : e ∈ s.onHeap) : Opened s' e := by
  obtain ⟨⟨file, bound, opened⟩, -⟩ := o.heap e mem
  refine ⟨file, bound, ?_⟩
  rcases h.closed with same | ⟨rfl, b, after, pc, buffer, length, given, closed⟩
  · rwa [same]
  · -- the thread is in `CallFileFlush`, so all that is on the heap is in the queue
    have idle := o.orderly.inside (by rw [pc]; rfl)
    have pending : e ∈ s.fileFlush.pending := by
      simpa only [onHeap, pc, idle, AppPc.holding, FileFlush.ProducerPc.carries, List.append_nil] using mem
    have other := safe.pending pc buffer length given e pending
    rw [closed, List.mem_append, Option.mem_toList]
    rintro (before | this)
    · exact opened before
    · exact other (bound.trans this.symm)

theorem FilesOpen.step (o : FilesOpen s) (safe : ReleaseSafe abi s a) (h : Step abi s a s') :
    FilesOpen s' := by
  refine ⟨o.orderly.step h, ?_, ?_⟩
  · intro e mem
    rcases h.onHeap o.orderly mem with old | ⟨rfl, b, after, len, takes, taken⟩
    · exact ⟨o.still_opened safe h old, (o.heap e old).2⟩
    · obtain ⟨file, opened⟩ := safe.opened takes
      obtain ⟨bound, -, length⟩ := Buffer.takeFlush_inv taken
      have bound := bound.trans (Buffer.endCompress_frame b).logFilePtr
      refine ⟨⟨file, bound.trans opened, ?_⟩, by rw [length]; exact takes.2.2.2⟩
      have alive := o.orderly.alive b takes.2.1
      rcases h.closed with same | ⟨-, b', after', -, buffer', length', -⟩
      · rw [same, alive]
        exact List.not_mem_nil
      · obtain ⟨-, buffer, length, pos⟩ := takes
        cases buffer.symm.trans buffer'
        cases length.symm.trans length'
        exact absurd pos (Nat.lt_irrefl 0)
  · intro e mem
    rcases h.flushed mem with old | heap
    · exact o.flushed e old
    · obtain ⟨⟨file, bound, -⟩, -⟩ := o.heap e heap
      exact ⟨file, bound⟩

/-- Everything that was enqueued has been through `Flush`, and had a file to go to. -/
def AllWritten (s : Session Z) : Prop :=
  s.fileFlush.pushed.Perm s.fileFlush.flushed ∧
    ∀ e ∈ s.fileFlush.flushed, ∃ file, e.appended file = e.payload ∧ e.logFilePtr = some file

theorem FilesOpen.allWritten (o : FilesOpen s) (drained : s.fileFlush.pending = []) : AllWritten s := by
  have accounted := o.orderly.queue.accounted
  rw [FileFlush.Accounted, drained, List.append_nil] at accounted
  refine ⟨accounted, ?_⟩
  intro e mem
  obtain ⟨file, bound⟩ := o.flushed e mem
  exact ⟨file, if_pos bound, bound⟩

/-! ## On a platform -/

/-- The steps on a platform are those of the session. -/
theorem hosted_step {platform : Platform} (h : Hosted Z) (a : SessionAction) (h' : Hosted Z)
    (stepped : h.step abi platform a = some h') : h.session.step abi a = some h'.session := by
  unfold Hosted.step at stepped
  split at stepped
  next => cases stepped
  next =>
    obtain ⟨s, moved, eq⟩ := Option.map_eq_some_iff.mp stepped
    cases eq
    exact moved

/-- Every flush on the heap has its allocation. -/
structure Allocated (s : Session Z) : Prop where
  orderly : Orderly s
  heap : ∀ e ∈ s.onHeap, e.data ≠ none

theorem allocated_start {sys : SysCalls} {file : Bytes} {args : InitArgs} {p : Process Z}
    (init : initNative abi Z sys file args = some p) : Allocated (start p) :=
  ⟨orderly_start init, fun _ mem => absurd mem List.not_mem_nil⟩

theorem Allocated.step (o : Allocated s) (h : Step abi s a s') : Allocated s' := by
  refine ⟨o.orderly.step h, ?_⟩
  intro e mem
  rcases h.onHeap o.orderly mem with old | ⟨-, b, after, len, -, taken⟩
  · exact o.heap e old
  · exact (Buffer.takeFlush_inv taken).2.1

/-- **No flush of a session has a destructor that is defined**, on any platform and in any state. -/
theorem onHeap_not_deletable {platform : Platform} {sys : SysCalls} {file : Bytes} {args : InitArgs}
    {p₀ : Process Z} (init : initNative abi Z sys file args = some p₀)
    {actions : List SessionAction} {h : Hosted Z}
    (ran : run (Hosted.step abi platform) { session := start p₀ } actions = some h) :
    ∀ e ∈ h.session.onHeap, ¬ BufferFlush.Deletable e.deletes := by
  have o : Allocated h.session := run_keeps Allocated (fun _ _ _ o h => o.step (step_cases h))
    (allocated_start init) (run_projects hosted_step ran)
  intro e mem
  rw [BufferFlush.deletable_iff]
  exact o.heap e mem

/-- A platform that goes on only from what the language defines. -/
structure Strict (platform : Platform) : Prop where
  deletes : ∀ ps, platform.deletes ps = true → BufferFlush.Deletable ps
  flowsOff : platform.flowsOff = false

theorem Strict.flushes {platform : Platform} (strict : Strict platform) {f : BufferFlush}
    (allocated : f.data ≠ none) : platform.flushes f = false := by
  unfold Platform.flushes
  split
  · rw [Bool.eq_false_iff]
    exact fun goes => allocated ((BufferFlush.deletable_iff f).mp (strict.deletes _ goes))
  · exact strict.flowsOff

/-- **On such a platform a process writes one payload**, and then ends. -/
theorem flushed_once {platform : Platform} (strict : Strict platform) {sys : SysCalls} {file : Bytes}
    {args : InitArgs} {p₀ : Process Z} (init : initNative abi Z sys file args = some p₀)
    {actions : List SessionAction} {h : Hosted Z}
    (ran : run (Hosted.step abi platform) { session := start p₀ } actions = some h) :
    h.session.fileFlush.flushed = [] ∨
      h.session.fileFlush.flushed.length = 1 ∧ h.ended = true := by
  refine (run_keeps (fun h : Hosted Z => Allocated h.session ∧ (h.session.fileFlush.flushed = [] ∨
    h.session.fileFlush.flushed.length = 1 ∧ h.ended = true)) ?_ ⟨allocated_start init, .inl rfl⟩
    ran).2
  rintro h a h' ⟨o, once⟩ stepped
  have step := step_cases (hosted_step h a h' stepped)
  refine ⟨o.step step, ?_⟩
  unfold Hosted.step at stepped
  split at stepped
  next => cases stepped
  next there =>
    obtain ⟨s, -, eq⟩ := Option.map_eq_some_iff.mp stepped
    cases eq
    have none_yet := once.resolve_right fun ended => there ended.2
    rcases step.flushes with same | ⟨rfl, f, pc, more⟩
    · exact .inl (same.trans none_yet)
    · -- the worker comes to the end of its first `Flush`
      refine .inr ⟨by rw [more, none_yet]; rfl, ?_⟩
      simp only [survives, pc, strict.flushes (o.heap f (onHeap_of_flush pc)), Bool.not_false]

/-- The flush that the worker is at the end of is one of those that are pending. -/
theorem survives_worker {platform : Platform} (s : Session Z)
    (last : ∀ e ∈ s.fileFlush.pending, platform.flushes e = true) :
    s.survives abi platform .worker = true := by
  simp only [survives]
  split
  next f pc =>
    refine last f ?_
    rw [FileFlush.State.pending, pc]
    exact List.mem_cons_self
  next => rfl

/-- Where the process goes on after each flush that is pending, the worker's steps are its steps in the
queue. -/
theorem run_worker {platform : Platform} {h : Hosted Z} {q : FileFlush.State BufferFlush} {k : Nat}
    (there : h.ended = false) (idle : h.session.fileFlush.producers 0 = .idle)
    (last : ∀ e ∈ h.session.fileFlush.pending, platform.flushes e = true)
    (ran : run FileFlush.step h.session.fileFlush (List.replicate k .worker) = some q) :
    run (Hosted.step abi platform) h (List.replicate k .worker) =
      some { session := { h.session with fileFlush := q } } := by
  induction k generalizing h with
  | zero =>
    cases ran
    obtain ⟨s, ended⟩ := h
    cases there
    rfl
  | succ k ih =>
    obtain ⟨q₁, first, rest⟩ := run_cons_some ran
    have step := FileFlush.step_cases first
    have stepped : h.step abi platform .worker =
        some { session := { h.session with fileFlush := q₁ } } := by
      simp only [Hosted.step, there, Bool.false_eq_true, if_false, survives_worker h.session last,
        Session.step, queueStep, first]
      rfl
    rw [List.replicate_succ, run, stepped, Option.bind_some]
    refine ih rfl ((congrFun step.worker_frame.1 0).trans idle) ?_ rest
    intro e mem
    refine last e ((step.pending (t := 0) trivial mem).resolve_right ?_)
    rw [idle]
    exact List.not_mem_nil

/-- Outside `AsyncFlush`, the worker gets through what was enqueued, if `delete[]` lets it. -/
theorem FilesOpen.drains {platform : Platform} {h : Hosted Z} (o : FilesOpen h.session)
    (there : h.ended = false) (out : h.session.app.inside = false)
    (deletes : ∀ e ∈ h.session.fileFlush.pending, platform.deletes e.deletes = true) :
    ∃ k h', run (Hosted.step abi platform) h (List.replicate k .worker) = some h' ∧
      h'.session.fileFlush.pushed = h.session.fileFlush.pushed ∧ AllWritten h'.session := by
  have idle := o.orderly.inside out
  have outside : ∀ t, (h.session.fileFlush.producers t).holds = false := by
    intro t
    by_cases own : t = 0
    · rw [own, idle]
      rfl
    · rw [o.orderly.others t own]
      rfl
  have last : ∀ e ∈ h.session.fileFlush.pending, platform.flushes e = true := by
    intro e mem
    obtain ⟨⟨file, bound, -⟩, pos⟩ := o.heap e (List.mem_append_left _ mem)
    rw [Platform.flushes, if_pos ⟨by rw [bound]; rfl, pos⟩]
    exact deletes e mem
  obtain ⟨k, q, ran, pending, pushed⟩ := o.orderly.queue.drains outside
  have ran' : run (Hosted.step abi platform) h (List.replicate k .worker) =
      some { session := { h.session with fileFlush := q } } := run_worker there idle last ran
  have safe : Meets (Session.step abi) (ReleaseSafe abi) h.session (List.replicate k .worker) := by
    refine Meets.imp ?_ (meets_of_forall (P := (· = .worker)) _ fun _ => List.eq_of_mem_replicate)
    rintro _ _ rfl
    trivial
  have kept : FilesOpen { h.session with fileFlush := q } := run_keeps_of_meets FilesOpen
    (fun _ _ _ o safe h => o.step safe (step_cases h)) o safe (run_projects hosted_step ran')
  exact ⟨k, _, ran', pushed, kept.allWritten pending⟩

/-- **Release and the log file.** In every run, on any platform, of a process whose `CallFileFlush`
takes only with a log file open, and whose `ReleaseNative` finds nothing live only where no flush to
that file is pending: the worker never has a flush in hand whose file is closed, no `AsyncFlush` is
refused, and all that was enqueued is written once the worker has returned. Until then, while the
process is there and the application thread is not in `AsyncFlush`, the worker's own steps write it,
if `delete[]` lets the process go on after the destructor of each flush that is pending. -/
theorem release_after_flushes (abi : Abi) (platform : Platform) (Z : Zlib) (sys : SysCalls)
    (file : Bytes) (args : InitArgs) (p₀ : Process Z)
    (init : initNative abi Z sys file args = some p₀) (actions : List SessionAction) (h : Hosted Z)
    (ran : run (Hosted.step abi platform) { session := start p₀ } actions = some h)
    (safe : Meets (Hosted.step abi platform) (fun h a => ReleaseSafe abi h.session a)
      { session := start p₀ } actions) :
    (∀ e ∈ h.session.fileFlush.worker.inHand, Opened h.session e) ∧
      (∀ r ∈ h.session.fileFlush.answered, r.2 = true) ∧
      (h.session.fileFlush.worker = .returned → AllWritten h.session) ∧
      (h.ended = false → h.session.app.inside = false →
        (∀ e ∈ h.session.fileFlush.pending, platform.deletes e.deletes = true) →
        ∃ k h', run (Hosted.step abi platform) h (List.replicate k .worker) = some h' ∧
          h'.session.fileFlush.pushed = h.session.fileFlush.pushed ∧ AllWritten h'.session) := by
  have o : FilesOpen h.session := run_keeps_of_meets FilesOpen
    (fun _ _ _ o safe h => o.step safe (step_cases h)) ⟨orderly_start init, nofun, nofun⟩
    (meets_projects hosted_step ran safe) (run_projects hosted_step ran)
  refine ⟨?_, o.orderly.answered, ?_, o.drains⟩
  · intro e hand
    exact (o.heap e (List.mem_append_left _ (List.mem_append_left _ hand))).1
  · intro returned
    refine o.allWritten ?_
    rw [FileFlush.State.pending, returned, (o.orderly.queue.settled.returned returned).1]
    rfl

/-- A whole `WriteNative` that finds room. -/
def writing (msg : JString) : List SessionAction := .call (.write msg) :: List.replicate 4 .app

/-- A whole `AsyncFlushNative` on a live region that is not empty. -/
def flushing : List SessionAction := .call .asyncFlush :: List.replicate 10 .app

/-- `a` is enqueued, and another `a` goes along with the buffer in `ReleaseNative`. -/
def handedRelease : List SessionAction :=
  writing sampleA ++ flushing ++ writing sampleA ++ .call .release :: List.replicate 10 .app

/-- A platform that goes on whatever happens. -/
def lenient : Platform := ⟨fun _ => true, fun _ _ => rfl, true, true⟩

/-- Both are still in the queue, and the worker gets through. -/
theorem release_after_flushes_drained :
    ∃ p₀ : Process blocks, initNative .lp64 blocks {} [] (sampleArgs 8 false) = some p₀ ∧
      ∃ h, run (Hosted.step .lp64 lenient) { session := start p₀ } handedRelease = some h ∧
        h.session.fileFlush.pending.length = 2 ∧
        ∃ k h', run (Hosted.step .lp64 lenient) h (List.replicate k .worker) = some h' ∧
          h'.session.fileFlush.pushed = h.session.fileFlush.pushed ∧ AllWritten h'.session := by
  obtain ⟨p₀, init, facts⟩ := Option.bind_eq_some_iff.mp (show
    (initNative .lp64 blocks {} [] (sampleArgs 8 false)).bind (fun p₀ =>
      (run (Hosted.step .lp64 lenient) { session := start p₀ } handedRelease).map fun h =>
        (decide (Meets (Hosted.step .lp64 lenient) (fun h a => ReleaseSafe .lp64 h.session a)
          { session := start p₀ } handedRelease), h.ended, h.session.app.inside,
          h.session.fileFlush.pending.length)) = some (true, false, false, 2) by
    decide +kernel)
  obtain ⟨h, ran, facts⟩ := Option.map_eq_some_iff.mp facts
  simp only [Prod.mk.injEq] at facts
  obtain ⟨safe, there, out, pending⟩ := facts
  exact ⟨p₀, init, h, ran, pending, (release_after_flushes .lp64 lenient blocks {} []
    (sampleArgs 8 false) p₀ init handedRelease h ran (of_decide_eq_true safe)).2.2.2 there out
    fun _ _ => rfl⟩

/-- `recycle` with the worker behind: `AsyncFlushNative` enqueues `a`, `ReleaseNative` finds nothing
live and closes the file, and then the worker takes the flush to it. -/
theorem closed_before_flush :
    ∃ p₀ : Process blocks, initNative .lp64 blocks {} [] (sampleArgs 8 false) = some p₀ ∧
      ∃ h, run (Hosted.step .lp64 lenient) { session := start p₀ }
          (writing sampleA ++ flushing ++ [.call .release, .app] ++ List.replicate 2 .worker) =
            some h ∧
        ∃ e ∈ h.session.fileFlush.worker.inHand, ∃ file ∈ h.session.closed,
          e.logFilePtr = some file := by
  obtain ⟨p₀, init, facts⟩ := Option.bind_eq_some_iff.mp (show
    (initNative .lp64 blocks {} [] (sampleArgs 8 false)).bind (fun p₀ =>
      (run (Hosted.step .lp64 lenient) { session := start p₀ }
        (writing sampleA ++ flushing ++ [.call .release, .app] ++ List.replicate 2 .worker)).map
        fun h => decide (∃ e ∈ h.session.fileFlush.worker.inHand, ∃ file ∈ h.session.closed,
          e.logFilePtr = some file)) = some true by
    decide +kernel)
  obtain ⟨h, ran, closed⟩ := Option.map_eq_some_iff.mp facts
  exact ⟨p₀, init, h, ran, of_decide_eq_true closed⟩

end Dolin.Zap.Session
