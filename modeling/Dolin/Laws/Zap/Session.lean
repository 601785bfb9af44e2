import Dolin.Laws.Zap.FileFlush
import Dolin.Laws.Zap.Native
import Dolin.Zap.Session

/-!
# What a step of a session can do

One constructor for each step of the application thread; the worker's steps are those of the queue.
Run by itself, the application thread computes what the native methods compute.
-/

namespace Dolin.Zap.Session

open Region BufferHeader Machine

variable {Z : Zlib} {abi : Abi} {s s' : Session Z} {a : SessionAction}

/-- The steps of a session, one constructor for each. -/
inductive Step (abi : Abi) (s : Session Z) : SessionAction → Session Z → Prop
  | write (msg : JString) (pc : s.app = .idle) :
      Step abi s (.call (.write msg)) { s with app := .check msg }
  | flush (pc : s.app = .idle) :
      Step abi s (.call .asyncFlush) { s with app := .callFileFlush .done }
  | expLogFile (path : JString) (limitSize : Int32) (logOpened : Bool) (b b' : Buffer Z)
      (handed : Option BufferFlush) (pc : s.app = .idle) (buffer : s.buffer = some b)
      (rotated : b.expLogPath abi path (abi.ofInt limitSize.toInt) (fopen path s.opens logOpened) =
        some { buffer := some b', handed }) :
      Step abi s (.call (.expLogFile path limitSize logOpened)) { s with
        buffer := some b', opens := s.opens + 1, app := .handing handed }
  | release (pc : s.app = .idle) :
      Step abi s (.call .release) { s with app := .callFileFlush .stop }
  | check (msg : JString) (b : Buffer Z) (empty : Nat) (pc : s.app = .check msg)
      (buffer : s.buffer = some b) (free : b.emptySize abi = some empty) :
      Step abi s .app { s with
        app := if msg.length ≥ empty then .callFileFlush (.append msg) else .append msg }
  | take (after : After) (b : Buffer Z) (len : Nat) (f : BufferFlush)
      (pc : s.app = .callFileFlush after) (buffer : s.buffer = some b)
      (length : b.getLength abi = some len) (pos : 0 < len)
      (taken : b.endCompress.takeFlush abi len after.release = some f) :
      Step abi s .app { s with buffer := some b.endCompress, app := .rewind f after }
  | delete (after : After) (b : Buffer Z) (pc : s.app = .callFileFlush after)
      (buffer : s.buffer = some b) (length : b.getLength abi = some 0)
      (given : after.release = true) :
      Step abi s .app { s with
        buffer := none, closed := s.closed ++ b.logFilePtr.toList, app := after.next }
  | leave (after : After) (b : Buffer Z) (pc : s.app = .callFileFlush after)
      (buffer : s.buffer = some b) (length : b.getLength abi = some 0)
      (given : after.release = false) : Step abi s .app { s with app := after.next }
  | rewind (f : BufferFlush) (after : After) (b : Buffer Z) (pc : s.app = .rewind f after)
      (buffer : s.buffer = some b) :
      Step abi s .app { s with buffer := some b.rewind, app := .wipe f after }
  | wipe (f : BufferFlush) (after : After) (b b' : Buffer Z) (pc : s.app = .wipe f after)
      (buffer : s.buffer = some b) (wiped : b.wipe abi = some b') :
      Step abi s .app { s with buffer := some b', app := .publish f after }
  | publish (f : BufferFlush) (after : After) (b b' : Buffer Z) (pc : s.app = .publish f after)
      (buffer : s.buffer = some b) (published : b.publish abi = some b') :
      Step abi s .app { s with buffer := some b', app := .asyncFlush f after }
  | asyncFlush (f : BufferFlush) (after : After) (q : FileFlush.State BufferFlush)
      (pc : s.app = .asyncFlush f after) (queue : FileFlush.Step s.fileFlush (.call 0 f) q) :
      Step abi s .app { s with fileFlush := q, app := .enqueue after }
  | enqueue (after : After) (q : FileFlush.State BufferFlush) (pc : s.app = .enqueue after)
      (queue : FileFlush.Step s.fileFlush (.producer 0) q) :
      Step abi s .app { s with
        fileFlush := q, app := if (q.producers 0).isIdle then after.next else .enqueue after }
  | append (msg : JString) (b b' : Buffer Z) (writeSize : Option Nat) (pc : s.app = .append msg)
      (buffer : s.buffer = some b) (put : b.putLog abi msg.utf8 = some (b', writeSize)) :
      Step abi s .app { s with
        buffer := some b', app := .appending msg.utf8 writeSize }
  | move (n : Nat) (copied : Bytes) (b b' : Buffer Z) (pc : s.app = .move n copied)
      (buffer : s.buffer = some b) (moved : b.moveWritePtr n = some b') :
      Step abi s .app { s with buffer := some b', app := .finish copied }
  | finish (copied : Bytes) (b b' : Buffer Z) (pc : s.app = .finish copied)
      (buffer : s.buffer = some b) (published : b.publish abi = some b') :
      Step abi s .app { s with buffer := some b', app := .idle, acked := s.acked ++ [copied] }
  | stopFlush (q : FileFlush.State BufferFlush) (pc : s.app = .stopFlush)
      (queue : FileFlush.Step s.fileFlush .stopFlush q) :
      Step abi s .app { s with
        fileFlush := q, app := if q.stop = .joined then .released else .stopFlush }
  | worker (q : FileFlush.State BufferFlush) (queue : FileFlush.Step s.fileFlush .worker q) :
      Step abi s .worker { s with fileFlush := q }
  | spurious (q : FileFlush.State BufferFlush) (queue : FileFlush.Step s.fileFlush .spurious q) :
      Step abi s .spurious { s with fileFlush := q }

theorem queueStep_cases {action : FileFlush.Action BufferFlush}
    (h : s.queueStep action = some s') :
    ∃ q, FileFlush.Step s.fileFlush action q ∧ s' = { s with fileFlush := q } := by
  obtain ⟨q, hq, h⟩ := Option.bind_eq_some_iff.mp h
  cases h
  exact ⟨q, FileFlush.step_cases hq, rfl⟩

theorem begin_cases {c : AppCall} (pc : s.app = .idle) (h : s.begin abi c = some s') :
    Step abi s (.call c) s' := by
  cases c with
  | write msg => cases h; exact .write msg pc
  | asyncFlush => cases h; exact .flush pc
  | expLogFile path limitSize logOpened =>
    obtain ⟨b, hb, h⟩ := Option.bind_eq_some_iff.mp h
    obtain ⟨⟨buffer, handed⟩, hr, h⟩ := Option.bind_eq_some_iff.mp h
    obtain ⟨b', hb', h⟩ := Option.bind_eq_some_iff.mp h
    cases hb'
    cases h
    exact .expLogFile path limitSize logOpened b b' handed pc hb hr
  | release => cases h; exact .release pc

theorem appStep_cases (h : s.appStep abi = some s') : Step abi s .app s' := by
  unfold appStep at h
  split at h
  next => cases h
  next msg pc =>
    obtain ⟨b, hb, h⟩ := Option.bind_eq_some_iff.mp h
    obtain ⟨empty, he, h⟩ := Option.bind_eq_some_iff.mp h
    cases h
    exact .check msg b empty pc hb he
  next after pc =>
    obtain ⟨b, hb, h⟩ := Option.bind_eq_some_iff.mp h
    obtain ⟨len, hl, h⟩ := Option.bind_eq_some_iff.mp h
    unfold takeOrLeave at h
    split at h
    next pos =>
      obtain ⟨f, hf, h⟩ := Option.bind_eq_some_iff.mp h
      cases h
      exact .take after b len f pc hb hl pos hf
    next zero =>
      have zero : len = 0 := by omega
      subst zero
      split at h
      next given => cases h; exact .delete after b pc hb hl given
      next given => cases h; exact .leave after b pc hb hl (Bool.eq_false_of_not_eq_true given)
  next f after pc =>
    obtain ⟨b, hb, h⟩ := Option.bind_eq_some_iff.mp h
    cases h
    exact .rewind f after b pc hb
  next f after pc =>
    obtain ⟨b, hb, h⟩ := Option.bind_eq_some_iff.mp h
    obtain ⟨b', hw, h⟩ := Option.bind_eq_some_iff.mp h
    cases h
    exact .wipe f after b b' pc hb hw
  next f after pc =>
    obtain ⟨b, hb, h⟩ := Option.bind_eq_some_iff.mp h
    obtain ⟨b', hp, h⟩ := Option.bind_eq_some_iff.mp h
    cases h
    exact .publish f after b b' pc hb hp
  next f after pc =>
    obtain ⟨s₁, moved, h⟩ := Option.bind_eq_some_iff.mp h
    obtain ⟨q, hq, rfl⟩ := queueStep_cases moved
    cases h
    exact .asyncFlush f after q pc hq
  next after pc =>
    obtain ⟨s₁, moved, h⟩ := Option.bind_eq_some_iff.mp h
    obtain ⟨q, hq, rfl⟩ := queueStep_cases moved
    cases h
    exact .enqueue after q pc hq
  next msg pc =>
    obtain ⟨b, hb, h⟩ := Option.bind_eq_some_iff.mp h
    obtain ⟨⟨b', writeSize⟩, hp, h⟩ := Option.bind_eq_some_iff.mp h
    cases h
    exact .append msg b b' writeSize pc hb hp
  next n copied pc =>
    obtain ⟨b, hb, h⟩ := Option.bind_eq_some_iff.mp h
    obtain ⟨b', hm, h⟩ := Option.bind_eq_some_iff.mp h
    cases h
    exact .move n copied b b' pc hb hm
  next copied pc =>
    obtain ⟨b, hb, h⟩ := Option.bind_eq_some_iff.mp h
    obtain ⟨b', hp, h⟩ := Option.bind_eq_some_iff.mp h
    cases h
    exact .finish copied b b' pc hb hp
  next pc =>
    obtain ⟨s₁, moved, h⟩ := Option.bind_eq_some_iff.mp h
    obtain ⟨q, hq, rfl⟩ := queueStep_cases moved
    cases h
    exact .stopFlush q pc hq
  next => cases h

/-- **The inversion lemma**: every step is one of `Step`. -/
theorem step_cases (h : s.step abi a = some s') : Step abi s a s' := by
  cases a with
  | call c =>
    simp only [step] at h
    split at h
    next pc => exact begin_cases pc h
    next => cases h
  | app => exact appStep_cases h
  | worker =>
    obtain ⟨q, hq, rfl⟩ := queueStep_cases h
    exact .worker q hq
  | spurious =>
    obtain ⟨q, hq, rfl⟩ := queueStep_cases h
    exact .spurious q hq

/-! ## The application thread alone -/

/-- Some number of steps of the application thread lead from `s` to `s'`. -/
def AppRuns (abi : Abi) (s s' : Session Z) : Prop :=
  ∃ k, run (step abi) s (List.replicate k .app) = some s'

theorem AppRuns.refl (s : Session Z) : AppRuns abi s s := ⟨0, rfl⟩

/-- One step first. -/
theorem AppRuns.of_step (s₁ : Session Z) (first : s.appStep abi = some s₁) (h : AppRuns abi s₁ s') :
    AppRuns abi s s' := by
  obtain ⟨k, ran⟩ := h
  exact ⟨k + 1, Option.bind_eq_some_iff.mpr ⟨s₁, first, ran⟩⟩

/-- The steps from the test of the length to the end of `Clear` are `CallFileFlush`. -/
theorem appRuns_callFileFlush {b : Buffer Z} {after : After} {flush : FlushId} {called : Buffer.Called Z}
    (pc : s.app = .callFileFlush after) (buffer : s.buffer = some b)
    (h : b.callFileFlush abi (some flush) after.release = some called) :
    ∃ s', AppRuns abi s s' ∧ s'.buffer = called.buffer ∧ s'.fileFlush = s.fileFlush ∧
      s'.app = AppPc.called after called.handed := by
  obtain ⟨len, hl, h⟩ := Option.bind_eq_some_iff.mp h
  have tested : s.appStep abi = s.takeOrLeave abi b after len := by
    simp only [appStep, pc, buffer, hl, Option.bind_eq_bind, Option.bind_some]
  unfold takeOrLeave at tested
  split at h
  next pos =>
    obtain ⟨f, hf, h⟩ := Option.bind_eq_some_iff.mp h
    obtain ⟨b', hc, h⟩ := Option.bind_eq_some_iff.mp h
    cases h
    obtain ⟨b₁, hw, hp⟩ := Option.bind_eq_some_iff.mp hc
    rw [if_pos pos, hf] at tested
    refine ⟨{ s with buffer := some b', app := .asyncFlush f after },
      .of_step _ tested (.of_step { s with buffer := some b.endCompress.rewind, app := .wipe f after }
        rfl (.of_step { s with buffer := some b₁, app := .publish f after } ?_
          (.of_step _ ?_ (.refl _)))), rfl, rfl, rfl⟩
    · exact Option.bind_eq_some_iff.mpr ⟨_, hw, rfl⟩
    · exact Option.bind_eq_some_iff.mpr ⟨_, hp, rfl⟩
  next zero =>
    cases h
    rw [if_neg zero] at tested
    cases given : after.release with
    | true =>
      rw [given, if_pos rfl] at tested
      exact ⟨_, .of_step _ tested (.refl _), rfl, rfl, rfl⟩
    | false =>
      rw [given, if_neg Bool.false_ne_true] at tested
      exact ⟨_, .of_step _ tested (.refl _), buffer, rfl, rfl⟩

/-- The steps from the copy to the end are `Append`. -/
theorem appRuns_append {b b' : Buffer Z} {msg : JString} {n : Nat} (pc : s.app = .append msg)
    (buffer : s.buffer = some b) (h : b.append abi msg.utf8 = some (b', n)) :
    ∃ s', AppRuns abi s s' ∧ s'.buffer = some b' ∧ s'.fileFlush = s.fileFlush ∧ s'.app = .idle := by
  obtain ⟨⟨b₁, writeSize⟩, hput, h⟩ := Option.bind_eq_some_iff.mp h
  have put : s.appStep abi =
      some { s with buffer := some b₁, app := .appending msg.utf8 writeSize } := by
    simp only [appStep, pc, buffer, hput, Option.bind_eq_bind, Option.bind_some]
    rfl
  cases writeSize with
  | none =>
    cases h
    exact ⟨_, .of_step _ put (.refl _), rfl, rfl, rfl⟩
  | some writeSize =>
    obtain ⟨b₂, hm, h⟩ := Option.bind_eq_some_iff.mp h
    obtain ⟨b₃, hp, h⟩ := Option.bind_eq_some_iff.mp h
    cases h
    refine ⟨{ s with buffer := some b', app := .idle, acked := s.acked ++ [msg.utf8.take n] },
      .of_step _ put (.of_step { s with buffer := some b₂, app := .finish (msg.utf8.take n) } ?_
        (.of_step _ ?_ (.refl _))), rfl, rfl, rfl⟩
    · exact Option.bind_eq_some_iff.mpr ⟨_, hm, rfl⟩
    · exact Option.bind_eq_some_iff.mpr ⟨_, hp, rfl⟩

/-! ## The discipline of the application thread -/

/-- What holds in every session: thread 0 alone is in `AsyncFlush`, and only where the application
thread stands there; `exit` is set by `StopFlush` and not before, so that no flush is refused; nothing
sets `file_flush_ptr`; and the buffer is deleted, and its file closed, only on the way to
`StopFlush`. -/
structure Orderly (s : Session Z) : Prop where
  queue : FileFlush.Consistent s.fileFlush
  others : ∀ t, t ≠ 0 → s.fileFlush.producers t = .idle
  inside : s.app.inside = false → s.fileFlush.producers 0 = .idle
  running : s.app.stopping = false → s.fileFlush.exit = false
  answered : ∀ r ∈ s.fileFlush.answered, r.2 = true
  answering : ∀ e, s.fileFlush.producers 0 ≠ .unlock e false
  unset : ∀ b, s.buffer = some b → b.fileFlushPtr = none
  gone : s.buffer = none → s.app.stopping = true
  alive : ∀ b, s.buffer = some b → s.closed = []

namespace Orderly

variable {pc : AppPc}

/-- Until `StopFlush` there is a buffer. -/
theorem buffer_ne_none (o : Orderly s) (at_ : s.app = pc) (going : pc.stopping = false) :
    s.buffer ≠ none := by
  intro none
  have gone := o.gone none
  rw [at_, going] at gone
  cases gone

/-- A step that leaves the queue alone, of a thread that is outside it. -/
theorem outside (o : Orderly s) (at_ : s.app = pc) (out : pc.inside = false)
    (going : pc.stopping = false) (queue : s'.fileFlush = s.fileFlush)
    (unset : ∀ b, s'.buffer = some b → b.fileFlushPtr = none)
    (gone : s'.buffer = none → s'.app.stopping = true)
    (alive : ∀ b, s'.buffer = some b → s'.closed = []) : Orderly s' := by
  subst at_
  refine ⟨?_, ?_, ?_, ?_, ?_, ?_, unset, gone, alive⟩ <;> rw [queue]
  · exact o.queue
  · exact o.others
  · intro _
    exact o.inside out
  · intro _
    exact o.running going
  · exact o.answered
  · exact o.answering

/-- Such a step that only moves the thread. -/
theorem walked (o : Orderly s) (at_ : s.app = pc) (out : pc.inside = false)
    (going : pc.stopping = false) (queue : s'.fileFlush = s.fileFlush) (buffer : s'.buffer = s.buffer)
    (closed : s'.closed = s.closed) : Orderly s' := by
  apply o.outside at_ out going queue
  · rw [buffer]
    exact o.unset
  · intro none
    exact absurd (buffer.symm.trans none) (o.buffer_ne_none at_ going)
  · rw [buffer, closed]
    exact o.alive

/-- Such a step that gives it a buffer of the same frame. -/
theorem framed {b b' : Buffer Z} (o : Orderly s) (at_ : s.app = pc) (out : pc.inside = false)
    (going : pc.stopping = false) (buffer : s.buffer = some b) (frame : b.Frame b')
    (queue : s'.fileFlush = s.fileFlush) (buffer' : s'.buffer = some b')
    (closed : s'.closed = s.closed) : Orderly s' := by
  apply o.outside at_ out going queue
  · intro c hc
    rw [buffer'] at hc
    cases hc
    exact frame.fileFlushPtr.trans (o.unset b buffer)
  · intro none
    rw [buffer'] at none
    cases none
  · intro _ _
    rw [closed]
    exact o.alive b buffer

/-- A step of the queue that moves none of the threads in `AsyncFlush`. -/
theorem worked {q : FileFlush.State BufferFlush} {a : FileFlush.Action BufferFlush} (o : Orderly s)
    (step : FileFlush.Step s.fileFlush a q) (frame : q.producers = s.fileFlush.producers ∧
      q.exit = s.fileFlush.exit ∧ q.answered = s.fileFlush.answered ∧
      q.pushed = s.fileFlush.pushed) : Orderly { s with fileFlush := q } := by
  obtain ⟨producers, exit, answered, -⟩ := frame
  refine ⟨o.queue.of_step step, ?_, ?_, ?_, ?_, ?_, o.unset, o.gone, o.alive⟩
  · rw [producers]
    exact o.others
  · rw [producers]
    exact o.inside
  · rw [exit]
    exact o.running
  · rw [answered]
    exact o.answered
  · rw [producers]
    exact o.answering

theorem asyncFlush {f : BufferFlush} {after : After} {q : FileFlush.State BufferFlush}
    (o : Orderly s) (pc : s.app = .asyncFlush f after)
    (step : FileFlush.Step s.fileFlush (.call 0 f) q) :
    Orderly { s with fileFlush := q, app := .enqueue after } := by
  have running := o.running (by rw [pc]; rfl)
  refine ⟨o.queue.of_step step, ?_, nofun, ?_, ?_, ?_, o.unset, ?_, o.alive⟩
  · intro t ne
    exact (step.others rfl ne).trans (o.others t ne)
  · cases step
    exact fun _ => running
  · cases step
    exact o.answered
  · cases step
    intro e
    simp only [FileFlush.State.setProducer_producers, if_true]
    nofun
  · intro none
    exact absurd none (o.buffer_ne_none pc rfl)

theorem enqueue {after : After} {q : FileFlush.State BufferFlush} (o : Orderly s)
    (pc : s.app = .enqueue after) (step : FileFlush.Step s.fileFlush (.producer 0) q) :
    Orderly { s with
      fileFlush := q, app := if (q.producers 0).isIdle then after.next else .enqueue after } := by
  have running := o.running (by rw [pc]; rfl)
  refine ⟨o.queue.of_step step, ?_, ?_, ?_, ?_, ?_, o.unset, ?_, o.alive⟩
  · intro t ne
    exact (step.others rfl ne).trans (o.others t ne)
  · intro out
    dsimp only at out
    split at out
    next idle =>
      cases hq : q.producers 0 with
      | idle => rfl
      | _ => rw [hq] at idle; cases idle
    next => cases out
  · have same : q.exit = s.fileFlush.exit := by cases step <;> rfl
    intro _
    exact same.trans running
  · intro r mem
    cases step with
    | answer _ e result at_ =>
      rcases List.mem_append.mp mem with old | new
      · exact o.answered r old
      · cases List.mem_singleton.mp new
        cases result with
        | true => rfl
        | false => exact absurd at_ (o.answering e)
    | _ => exact o.answered r mem
  · intro e
    cases step with
    | refuse _ e' at_ exit =>
      rw [exit] at running
      cases running
    | _ =>
      simp only [FileFlush.State.setProducer_producers, if_true]
      nofun
  · intro none
    exact absurd none (o.buffer_ne_none pc rfl)

theorem stopFlush {q : FileFlush.State BufferFlush} (o : Orderly s) (pc : s.app = .stopFlush)
    (step : FileFlush.Step s.fileFlush .stopFlush q) :
    Orderly { s with
      fileFlush := q, app := if q.stop = .joined then .released else .stopFlush } := by
  have same : q.producers = s.fileFlush.producers ∧ q.answered = s.fileFlush.answered := by
    cases step <;> exact ⟨rfl, rfl⟩
  have stopping : (if q.stop = .joined then AppPc.released else .stopFlush).stopping = true := by
    split <;> rfl
  refine ⟨o.queue.of_step step, ?_, ?_, ?_, ?_, ?_, o.unset, fun _ => stopping, o.alive⟩
  · rw [same.1]
    exact o.others
  · rw [same.1]
    exact fun _ => o.inside (by rw [pc]; rfl)
  · intro going
    rw [stopping] at going
    cases going
  · rw [same.2]
    exact o.answered
  · rw [same.1]
    exact o.answering

/-- **The step**: every step keeps the discipline. -/
theorem step (o : Orderly s) (h : Step abi s a s') : Orderly s' := by
  cases h with
  | write msg pc => exact o.walked pc rfl rfl rfl rfl rfl
  | flush pc => exact o.walked pc rfl rfl rfl rfl rfl
  | release pc => exact o.walked pc rfl rfl rfl rfl rfl
  | expLogFile path limitSize logOpened b b' handed pc buffer rotated =>
    obtain ⟨b₁, hi, called⟩ := Buffer.expLogPath_unset (o.unset b buffer) rotated
    cases called
    refine o.outside pc rfl rfl rfl ?_ nofun (fun _ _ => o.alive b buffer)
    intro c hc
    cases hc
    exact (Buffer.initData_reset hi).fileFlushPtr.trans (o.unset b buffer)
  | check msg b empty pc buffer free =>
    exact o.walked pc rfl rfl rfl rfl rfl
  | take after b len f pc buffer length pos taken =>
    exact o.framed pc rfl rfl buffer (Buffer.endCompress_frame b) rfl rfl rfl
  | delete after b pc buffer length given =>
    refine o.outside pc rfl rfl rfl nofun ?_ nofun
    intro _
    cases after with
    | stop => rfl
    | _ => cases given
  | leave after b pc buffer length given =>
    exact o.walked pc rfl rfl rfl rfl rfl
  | rewind f after b pc buffer =>
    exact o.framed pc rfl rfl buffer (Buffer.rewind_frame b) rfl rfl rfl
  | wipe f after b b' pc buffer wiped =>
    exact o.framed pc rfl rfl buffer (Buffer.wipe_frame wiped) rfl rfl rfl
  | publish f after b b' pc buffer published =>
    exact o.framed pc rfl rfl buffer (Buffer.publish_frame published) rfl rfl rfl
  | asyncFlush f after q pc queue => exact o.asyncFlush pc queue
  | enqueue after q pc queue => exact o.enqueue pc queue
  | append msg b b' writeSize pc buffer put =>
    exact o.framed pc rfl rfl buffer (Buffer.putLog_frame put) rfl rfl rfl
  | move n copied b b' pc buffer moved =>
    exact o.framed pc rfl rfl buffer (Buffer.moveWritePtr_frame moved) rfl rfl rfl
  | finish copied b b' pc buffer published =>
    exact o.framed pc rfl rfl buffer (Buffer.publish_frame published) rfl rfl rfl
  | stopFlush q pc queue => exact o.stopFlush pc queue
  | worker q queue => exact o.worked queue queue.worker_frame
  | spurious q queue => exact o.worked queue queue.spurious_frame

end Orderly

/-- `InitNative` starts an orderly session. -/
theorem orderly_start {sys : SysCalls} {file : Bytes} {args : InitArgs} {p : Process Z}
    (init : initNative abi Z sys file args = some p) : Orderly (start p) := by
  obtain ⟨mem, -, hi, -, -⟩ := initNative_inv init
  refine ⟨FileFlush.consistent_new, fun _ _ => rfl, fun _ => rfl, fun _ => rfl, nofun, nofun, ?_, nofun,
    fun _ _ => rfl⟩
  intro b hb
  cases hb
  exact (Buffer.initData_reset hi).fileFlushPtr

end Dolin.Zap.Session
