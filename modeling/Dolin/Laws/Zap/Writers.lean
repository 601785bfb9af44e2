import Dolin.Laws.Zap.Accounting
import Dolin.Zap.Writers

/-!
# Concurrent writers

The comparison in `WriteNative` holds no lock, so the free space it saw may be taken by another
thread's `Append` before its own. Where no such `Append` falls in between, no message is cut.
-/

namespace Dolin.Zap.Writers

open Region BufferHeader Machine

variable {Z : Zlib} {abi : Abi}

/-- Thread `t` compared, or flushed, and no thread has appended since. -/
def secured (t : Nat) : List WriterAction → Bool
  | [] => false
  | .check u _ :: past => u = t || secured t past
  | .flush u :: past => u = t || secured t past
  | .append _ :: _ => false

/-- An `Append` comes with no other in between it and its thread's comparison or flush. -/
def Undisturbed (s : Writers Z) : WriterAction → Prop
  | .append t => secured t s.past = true
  | _ => True

instance (s : Writers Z) (a : WriterAction) : Decidable (Undisturbed s a) := by
  unfold Undisturbed
  split <;> infer_instance

/-- The steps of one `WriteNative` by thread `t` with no other thread in between. -/
def alone (abi : Abi) (s : Writers Z) (t : Nat) (msg : JString) : List WriterAction :=
  match s.process.buffer.emptySize abi with
  | some empty =>
    if msg.length ≥ empty ∧ s.process.pFileFlush.isSome then [.check t msg, .flush t, .append t]
    else [.check t msg, .append t]
  | none => [.check t msg]

/-- A thread alone runs `WriteNative`. -/
theorem run_alone (s : Writers Z) (t : Nat) (msg : JString) (idle : s.writers t = .idle) :
    (run (step abi) s (alone abi s t msg)).map (·.process) = s.process.writeNative abi msg := by
  unfold alone Process.writeNative Process.makeRoom
  cases he : s.process.buffer.emptySize abi with
  | none => simp [run, step, act, idle, he]
  | some empty =>
    by_cases full : msg.length ≥ empty ∧ s.process.pFileFlush.isSome
    · simp only [if_pos full]
      cases hc : s.process.callFileFlush abi with
      | none => simp [run, step, act, idle, he, full, hc]
      | some p =>
        cases ha : p.buffer.append abi msg.utf8 with
        | none => simp [run, step, act, idle, he, full, hc, ha]
        | some r => simp [run, step, act, idle, he, full, hc, ha]
    · simp only [if_neg full]
      cases ha : s.process.buffer.append abi msg.utf8 with
      | none => simp [run, step, act, idle, he, full, ha]
      | some r => simp [run, step, act, idle, he, full, ha]

/-- The invariant: the buffer follows the batching machine; a writer whose space no one has taken
since still has it; and no `Append` has cut a message that fits the buffer. -/
structure Whole (abi : Abi) (path : JString) (limit cap : Nat) (s : Writers Z) : Prop where
  batches : ∃ c, Batches abi path limit cap s.process c
  room : ∀ t msg, s.writers t = .append msg → secured t s.past = true → msg.length ≤ cap →
    msg.length ≤ cap - s.process.buffer.live.length
  appended : ∀ r ∈ s.appended, r.1.length ≤ cap → r.2 = r.1.length

namespace Whole

variable {path : JString} {limit cap : Nat} {s s' : Writers Z}

theorem check {t : Nat} {msg : JString} (h : Whole abi path limit cap s)
    (hs : s.step abi (.check t msg) = some s') : Whole abi path limit cap s' := by
  obtain ⟨c, hb⟩ := h.batches
  obtain ⟨s₁, ha, hs⟩ := Option.bind_eq_some_iff.mp hs
  cases hs
  simp only [act] at ha
  split at ha
  next =>
    obtain ⟨empty, he, ha⟩ := Option.bind_eq_some_iff.mp ha
    cases ha
    rw [hb.emptySize] at he
    cases he
    refine ⟨⟨c, hb⟩, ?_, h.appended⟩
    intro u m at_ sec fits
    dsimp only at at_ sec ⊢
    rw [Function.update_apply] at at_
    by_cases own : u = t
    · -- its own comparison saw more space than the message takes
      rw [if_pos own] at at_
      obtain ⟨flush, hf⟩ := hb.flush
      rw [hf] at at_
      split at at_
      next => cases at_
      next less =>
        cases at_
        rw [hb.live]
        simp only [Option.isSome_some, and_true, ge_iff_le, not_le] at less
        omega
    · rw [if_neg own] at at_
      have sec : secured u s.past = true := by
        simpa [secured, Ne.symm own] using sec
      exact h.room u m at_ sec fits
  next => cases ha

theorem flush {t : Nat} (h : Whole abi path limit cap s)
    (hs : s.step abi (.flush t) = some s') : Whole abi path limit cap s' := by
  obtain ⟨c, hb⟩ := h.batches
  obtain ⟨s₁, ha, hs⟩ := Option.bind_eq_some_iff.mp hs
  cases hs
  simp only [act] at ha
  split at ha
  next msg pc =>
    obtain ⟨p', hp, ha⟩ := Option.bind_eq_some_iff.mp ha
    cases ha
    obtain ⟨p'', hp', hb'⟩ := hb.callFileFlush
    rw [hp] at hp'
    cases hp'
    have empty : p'.buffer.live = [] := by
      rw [hb'.live]
      exact c.flush_live
    refine ⟨⟨_, hb'⟩, ?_, h.appended⟩
    -- the whole buffer is free, for every writer
    intro u m _ _ fits
    show m.length ≤ cap - p'.buffer.live.length
    rw [empty]
    exact fits
  next => cases ha

theorem append {t : Nat} (h : Whole abi path limit cap s) (alone : Undisturbed s (.append t))
    (hs : s.step abi (.append t) = some s') : Whole abi path limit cap s' := by
  obtain ⟨c, hb⟩ := h.batches
  obtain ⟨s₁, ha, hs⟩ := Option.bind_eq_some_iff.mp hs
  cases hs
  simp only [act] at ha
  split at ha
  next msg pc =>
    obtain ⟨⟨b', n⟩, hp, ha⟩ := Option.bind_eq_some_iff.mp ha
    cases ha
    obtain ⟨b'', n', hp', hn, hb'⟩ := hb.append msg.utf8
    rw [hp] at hp'
    cases hp'
    refine ⟨⟨_, hb'⟩, ?_, ?_⟩
    · intro u m _ sec
      cases sec
    · intro r mem fits
      rcases List.mem_append.mp mem with old | new
      · exact h.appended r old fits
      · cases List.mem_singleton.mp new
        have room := h.room t msg pc alone fits
        rw [hb.live] at room
        show n = msg.length
        rw [hn]
        exact Nat.min_eq_left room
  next => cases ha

end Whole

/-- **Concurrent writers.** Any number of threads write to a buffer of `cap` bytes behind the header.
In every run in which no `Append` falls between a thread's comparison, or its own flush, and its
`Append`, every message of at most `cap` bytes is copied whole. -/
theorem messages_whole (abi : Abi) (Z : Zlib) (sys : SysCalls) (file : Bytes) (args : InitArgs)
    (p₀ : Process Z) (cap : Nat) (init : initNative abi Z sys file args = some p₀)
    (plain : args.compress = false)
    (size : args.bufferSize abi = cap + calculateHeaderLen abi args.logPath.length)
    (actions : List WriterAction) (s : Writers Z)
    (ran : run (step abi) { process := p₀ } actions = some s)
    (undisturbed : Meets (step abi) Undisturbed { process := p₀ } actions) :
    ∀ r ∈ s.appended, r.1.length ≤ cap → r.2 = r.1.length := by
  have start : Whole abi args.logPath (abi.ofInt args.limitSize.toInt) cap
      { process := p₀ : Writers Z } :=
    ⟨⟨_, initNative_batches init plain size⟩, nofun, nofun⟩
  have whole := run_keeps_of_meets (Whole abi args.logPath (abi.ofInt args.limitSize.toInt) cap)
    (fun s a s' h alone hs => by
      cases a with
      | check t msg => exact h.check hs
      | flush t => exact h.flush hs
      | append t => exact h.append alone hs) start undisturbed ran
  exact whole.appended

/-- One thread after the other: the second finds three bytes free, and flushes. -/
theorem messages_whole_in_turn :
    ∃ p₀ s, initNative .lp64 blocks {} [] (sampleArgs 8 false) = some p₀ ∧
      run (step .lp64) { process := p₀ : Writers blocks } [.check 0 sampleHello, .append 0,
        .check 1 sampleHello, .flush 1, .append 1] = some s ∧
      s.appended = [(sampleHello, 5), (sampleHello, 5)] ∧
      ∀ r ∈ s.appended, r.1.length ≤ 8 → r.2 = r.1.length := by
  obtain ⟨p₀, init, h⟩ := Option.bind_eq_some_iff.mp (show
    (initNative .lp64 blocks {} [] (sampleArgs 8 false)).bind (fun p₀ =>
      (run (step .lp64) { process := p₀ : Writers blocks } [.check 0 sampleHello, .append 0,
        .check 1 sampleHello, .flush 1, .append 1]).map fun s => (s.appended,
          decide (Meets (step .lp64) Undisturbed { process := p₀ : Writers blocks }
            [.check 0 sampleHello, .append 0, .check 1 sampleHello, .flush 1, .append 1]))) =
      some ([(sampleHello, 5), (sampleHello, 5)], true) by decide +kernel)
  obtain ⟨s, ran, facts⟩ := Option.map_eq_some_iff.mp h
  obtain ⟨appended, undisturbed⟩ := Prod.mk.inj facts
  exact ⟨p₀, s, init, ran, appended, messages_whole .lp64 blocks {} [] (sampleArgs 8 false) p₀ 8 init
    rfl (by decide) _ s ran (of_decide_eq_true undisturbed)⟩

/-- Both threads compare before either appends: each sees eight bytes free for its five, and the
second message loses its last two. -/
theorem second_message_cut :
    ∃ p₀ s, initNative .lp64 blocks {} [] (sampleArgs 8 false) = some p₀ ∧
      run (step .lp64) { process := p₀ : Writers blocks } [.check 0 sampleHello,
        .check 1 sampleHello, .append 0, .append 1] = some s ∧
      s.process.buffer.live = sampleHello.utf8 ++ sampleHello.utf8.take 3 ∧
      ¬ ∀ r ∈ s.appended, r.1.length ≤ 8 → r.2 = r.1.length := by
  obtain ⟨p₀, init, h⟩ := Option.bind_eq_some_iff.mp (show
    (initNative .lp64 blocks {} [] (sampleArgs 8 false)).bind (fun p₀ =>
      (run (step .lp64) { process := p₀ : Writers blocks } [.check 0 sampleHello,
        .check 1 sampleHello, .append 0, .append 1]).map fun s =>
          (s.appended, s.process.buffer.live)) =
      some ([(sampleHello, 5), (sampleHello, 3)], sampleHello.utf8 ++ sampleHello.utf8.take 3) by
    decide +kernel)
  obtain ⟨s, ran, facts⟩ := Option.map_eq_some_iff.mp h
  obtain ⟨appended, live⟩ := Prod.mk.inj facts
  refine ⟨p₀, s, init, ran, live, ?_⟩
  rw [appended]
  intro whole
  exact absurd (whole (sampleHello, 3) (by simp) (by decide)) (by decide)

end Dolin.Zap.Writers
