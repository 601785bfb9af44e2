import Mathlib.Data.List.Nodup
import Dolin.Laws.Zap.FileFlush

/-!
# The shutdown of the flush queue

`StopFlush` sets `exit` without the mutex, so a thread that has read `exit` as false pushes while the
shutdown is under way. It holds the mutex from its test to its answer, and so does the worker from
its last look into the queue to its return. Hence a thread that was let in is answered before the
worker returns, and none is let in after.
-/

namespace Dolin.Zap.FileFlush

open Machine

variable {E : Type} {s s' : State E} {a : Action E}

/-! ## The answers -/

/-- The entry of a thread that was let in, has pushed it and is not answered. -/
def ProducerPc.delivers : ProducerPc E → List E
  | notify e | unlock e true => [e]
  | idle | lock _ | testExit _ | push _ | unlock _ false => []

/-- The entry of a call that is under way. -/
def ProducerPc.entry : ProducerPc E → List E
  | lock e | testExit e | push e | notify e | unlock e _ => [e]
  | idle => []

/-- What the thread that holds `async_mtx` has pushed. -/
def State.delivering (s : State E) : List E :=
  match s.asyncMtx with
  | some (.producer t) => (s.producers t).delivers
  | _ => []

/-- The entries whose `AsyncFlush` returned `true`. -/
def State.accepted (s : State E) : List E := (s.answered.filter Prod.snd).map Prod.fst

theorem mem_accepted {e : E} : e ∈ s.accepted ↔ (e, true) ∈ s.answered := by
  simp [State.accepted]

theorem accepted_sublist (s : State E) : s.accepted.Sublist (s.answered.map Prod.fst) :=
  List.filter_sublist.map Prod.fst

/-- Only a thread that holds the mutex delivers. -/
theorem Locked.delivers_eq_nil (l : Locked s) {t : Nat} (other : s.asyncMtx ≠ some (.producer t)) :
    (s.producers t).delivers = [] := by
  have out : ¬ (s.producers t).holds = true := fun holds => other ((l.producer t).mp holds)
  cases pc : s.producers t with
  | notify e => rw [pc] at out; exact absurd rfl out
  | unlock e result => rw [pc] at out; exact absurd rfl out
  | _ => rfl

/-- A push is answered `true`, or the thread that made it still holds the mutex. -/
def Answered (s : State E) : Prop := s.pushed = s.accepted ++ s.delivering

/-- What the mutex's holder delivers, said of the thread. -/
theorem State.delivering_of_held {t : Nat} (held : s.asyncMtx = some (.producer t)) :
    s.delivering = (s.producers t).delivers := by
  rw [State.delivering, held]

/-- Moving a thread changes what is delivered only where that thread holds the mutex. -/
theorem State.delivering_setProducer {t : Nat} {pc : ProducerPc E}
    (same : s.asyncMtx = some (.producer t) → pc.delivers = (s.producers t).delivers) :
    (s.setProducer t pc).delivering = s.delivering := by
  change (match s.asyncMtx with
    | some (.producer u) => ((s.setProducer t pc).producers u).delivers
    | _ => []) = s.delivering
  unfold State.delivering
  cases held : s.asyncMtx with
  | none => rfl
  | some owner =>
    cases owner with
    | worker => rfl
    | producer u =>
      simp only [State.setProducer_producers]
      split
      next eq => subst eq; exact same held
      next => rfl

/-- What the mutex's holder delivers once it has moved. -/
theorem State.delivering_setProducer_self {t : Nat} {pc : ProducerPc E}
    (held : s.asyncMtx = some (.producer t)) : (s.setProducer t pc).delivering = pc.delivers := by
  rw [State.delivering_of_held (s := s.setProducer t pc) held, State.setProducer_producers,
    if_pos rfl]

/-- A thread that holds the mutex in its own code holds it. -/
theorem Locked.held (l : Locked s) {t : Nat} {pc : ProducerPc E} (at_ : s.producers t = pc)
    (holds : pc.holds = true) : s.asyncMtx = some (.producer t) :=
  (l.producer t).mp (at_ ▸ holds)

/-- Where the worker stands in code that holds the mutex, no thread delivers. -/
theorem Locked.delivering_of_worker (l : Locked s) (holds : s.worker.holds = true) :
    s.delivering = [] := by
  rw [State.delivering, l.worker.mp holds]

theorem Answered.step (l : Locked s) (q : Answered s) (h : Step s a s') : Answered s' := by
  unfold Answered at *
  -- a step that neither pushes nor answers keeps both sides
  have keep : s'.delivering = s.delivering → s'.pushed = s.pushed → s'.accepted = s.accepted →
      s'.pushed = s'.accepted ++ s'.delivering := by
    intro delivering pushed accepted
    rw [delivering, pushed, accepted, q]
  cases h with
  | lock pc free => exact keep (by rw [State.delivering, State.delivering, free]) rfl rfl
  | leave pc exit => exact keep (l.delivering_of_worker (by rw [pc]; rfl)).symm rfl rfl
  | park pc => exact keep (l.delivering_of_worker (by rw [pc]; rfl)).symm rfl rfl
  | relock pc free => exact keep (by rw [State.delivering, State.delivering, free]) rfl rfl
  | unlock pc => exact keep (l.delivering_of_worker (by rw [pc]; rfl)).symm rfl rfl
  | call t e pc => exact keep (State.delivering_setProducer fun _ => by rw [pc]; rfl) rfl rfl
  | enter t e pc free =>
    refine keep ?_ rfl rfl
    rw [State.delivering_setProducer_self rfl, State.delivering, free]
    rfl
  | refuse t e pc exit =>
    exact keep (State.delivering_setProducer fun _ => by rw [pc]; rfl) rfl rfl
  | accept t e pc exit =>
    exact keep (State.delivering_setProducer fun _ => by rw [pc]; rfl) rfl rfl
  | push t e pc =>
    have held := l.held pc rfl
    rw [State.delivering_of_held held, pc] at q
    rw [State.delivering_setProducer_self]
    · change s.pushed ++ [e] = s.accepted ++ [e]
      rw [q]
      exact congrArg (· ++ [e]) (List.append_nil _)
    · exact held
  | notify t e pc =>
    refine keep ?_ rfl rfl
    exact State.delivering_setProducer (s := s.notifyAll) fun _ => by
      change [e] = (s.producers t).delivers
      rw [pc]
      rfl
  | answer t e result pc =>
    rw [State.delivering_of_held (l.held pc rfl), pc] at q
    change s.pushed = ((s.answered ++ [(e, result)]).filter Prod.snd).map Prod.fst ++ []
    rw [List.filter_append, List.map_append, List.append_nil, q]
    cases result <;> rfl
  | _ => exact keep rfl rfl rfl

/-! ## After the worker -/

/-- Once the worker has returned, nobody delivers; `StopFlush` joins only a worker that has
returned. -/
structure Closed (s : State E) : Prop where
  returned : s.worker = .returned → ∀ t, (s.producers t).delivers = []
  joined : s.stop = .joined → s.worker = .returned

/-- Moving a thread to where it does not deliver leaves none that does. -/
theorem Closed.of_move (c : Closed s) {t : Nat} {pc : ProducerPc E} (nil : pc.delivers = [])
    (at_ : s.worker = .returned) (u : Nat) : ((s.setProducer t pc).producers u).delivers = [] := by
  rw [State.setProducer_producers]
  split
  · exact nil
  · exact c.returned at_ u

/-- A worker that has returned takes no step. -/
theorem Step.returned_stays (h : Step s a s') (done : s.worker = .returned) :
    s'.worker = .returned := by
  cases h with
  | notify t e pc => exact (WorkerPc.notified_eq_returned _).mpr done
  | stopNotify pc => exact (WorkerPc.notified_eq_returned _).mpr done
  | _ => simp_all [State.setProducer]

theorem Closed.step (l : Locked s) (q : Settled s) (c : Closed s) (h : Step s a s') :
    Closed s' := by
  constructor
  · intro at_
    cases h with
    | leave pc exit =>
      -- the worker leaves with the mutex, so no thread is between its push and its answer
      intro t
      apply l.delivers_eq_nil
      rw [l.worker.mp (by rw [pc]; rfl)]
      nofun
    | call t e pc => exact c.of_move rfl at_
    | enter t e pc free => exact c.of_move rfl at_
    | refuse t e pc exit => exact c.of_move rfl at_
    | accept t e pc exit => exact c.of_move rfl at_
    | push t e pc => exact absurd pc ((q.returned at_).2.2 t e)
    | notify t e pc =>
      have nil := c.returned ((WorkerPc.notified_eq_returned _).mp at_) t
      rw [pc] at nil
      cases nil
    | answer t e result pc => exact c.of_move rfl at_
    | stop pc => exact c.returned at_
    | stopNotify pc => exact c.returned ((WorkerPc.notified_eq_returned _).mp at_)
    | join pc done => exact c.returned at_
    | _ => cases at_
  · intro at_
    have stays := h.returned_stays
    cases h with
    | join pc done => exact done
    | stop pc => cases at_
    | stopNotify pc => cases at_
    | _ => exact stays (c.joined at_)

/-! ## One call for each entry -/

/-- The entry of a call. -/
def Action.entry : Action E → Option E
  | .call _ e => some e
  | _ => none

/-- No entry is brought in twice: those answered, those under way and those to come are apart. -/
structure Fresh (s : State E) (actions : List (Action E)) : Prop where
  answered : (s.answered.map Prod.fst).Nodup
  under_way : ∀ t, ∀ e ∈ (s.producers t).entry, e ∉ s.answered.map Prod.fst
  apart : ∀ t u, ∀ e ∈ (s.producers t).entry, e ∈ (s.producers u).entry → t = u
  to_come : (actions.filterMap Action.entry).Nodup
  new : ∀ e ∈ actions.filterMap Action.entry,
    e ∉ s.answered.map Prod.fst ∧ ∀ t, e ∉ (s.producers t).entry

/-- What a step does to the calls: nothing; one more is under way; or one is answered. -/
inductive Calls (s : State E) (a : Action E) (s' : State E) : Prop
  | none (action : a.entry = none) (answered : s'.answered = s.answered)
      (same : ∀ t, (s'.producers t).entry = (s.producers t).entry)
  | call (t : Nat) (e : E) (action : a.entry = some e) (answered : s'.answered = s.answered)
      (idle : (s.producers t).entry = []) (now : (s'.producers t).entry = [e])
      (same : ∀ u, u ≠ t → (s'.producers u).entry = (s.producers u).entry)
  | answer (t : Nat) (e : E) (result : Bool) (action : a.entry = none)
      (answered : s'.answered = s.answered ++ [(e, result)]) (was : (s.producers t).entry = [e])
      (idle : (s'.producers t).entry = [])
      (same : ∀ u, u ≠ t → (s'.producers u).entry = (s.producers u).entry)

/-- A thread that moves on with its entry. -/
theorem entry_of_move {t : Nat} {pc : ProducerPc E} (same : pc.entry = (s.producers t).entry)
    (u : Nat) : ((s.setProducer t pc).producers u).entry = (s.producers u).entry := by
  rw [State.setProducer_producers]
  split
  next eq => subst eq; exact same
  next => rfl

theorem Step.calls (h : Step s a s') : Calls s a s' := by
  cases h with
  | call t e pc =>
    refine .call t e rfl rfl (by rw [pc]; rfl) ?_ ?_
    · rw [State.setProducer_producers, if_pos rfl]
      rfl
    · intro u ne
      rw [State.setProducer_producers, if_neg ne]
  | answer t e result pc =>
    refine .answer t e result rfl rfl (by rw [pc]; rfl) ?_ ?_
    · rw [State.setProducer_producers, if_pos rfl]
      rfl
    · intro u ne
      rw [State.setProducer_producers, if_neg ne]
  | enter t e pc free => exact .none rfl rfl (entry_of_move (by rw [pc]; rfl))
  | refuse t e pc exit => exact .none rfl rfl (entry_of_move (by rw [pc]; rfl))
  | accept t e pc exit => exact .none rfl rfl (entry_of_move (by rw [pc]; rfl))
  | push t e pc => exact .none rfl rfl (entry_of_move (by rw [pc]; rfl))
  | notify t e pc =>
    exact .none rfl rfl (entry_of_move (s := s.notifyAll) (by
      change [e] = (s.producers t).entry
      rw [pc]
      rfl))
  | _ => exact .none rfl rfl fun _ => rfl

/-- Where no call begins or ends. -/
theorem Fresh.pass {actions : List (Action E)} (f : Fresh s (a :: actions)) (action : a.entry = none)
    (same : s'.answered = s.answered) (entries : ∀ t, (s'.producers t).entry = (s.producers t).entry) :
    Fresh s' actions := by
  obtain ⟨answered, under_way, apart, to_come, new⟩ := f
  rw [List.filterMap_cons_none action] at to_come new
  refine ⟨by rwa [same], ?_, ?_, to_come, ?_⟩
  · intro t e mem
    rw [same]
    exact under_way t e (entries t ▸ mem)
  · intro t u e
    rw [entries, entries]
    exact apart t u e
  · intro e mem
    rw [same]
    refine ⟨(new e mem).1, fun t => ?_⟩
    rw [entries]
    exact (new e mem).2 t

/-- Where a call begins. -/
theorem Fresh.call {actions : List (Action E)} (f : Fresh s (a :: actions)) {t : Nat} {e : E}
    (action : a.entry = some e) (same : s'.answered = s.answered)
    (now : (s'.producers t).entry = [e])
    (others : ∀ u, u ≠ t → (s'.producers u).entry = (s.producers u).entry) : Fresh s' actions := by
  obtain ⟨answered, under_way, apart, to_come, new⟩ := f
  rw [List.filterMap_cons_some action] at to_come new
  obtain ⟨first, rest⟩ := List.nodup_cons.mp to_come
  obtain ⟨unanswered, unused⟩ := new e List.mem_cons_self
  -- the entry of the call is under way nowhere else
  have mine : ∀ u, e ∈ (s'.producers u).entry → u = t := by
    intro u mem
    by_contra ne
    rw [others u ne] at mem
    exact unused u mem
  have theirs : ∀ u, ∀ d ∈ (s'.producers u).entry, u = t ∧ d = e ∨ d ∈ (s.producers u).entry := by
    intro u d mem
    by_cases eq : u = t
    · subst eq
      rw [now] at mem
      exact .inl ⟨rfl, List.mem_singleton.mp mem⟩
    · rw [others u eq] at mem
      exact .inr mem
  refine ⟨by rwa [same], ?_, ?_, rest, ?_⟩
  · intro u d mem
    rw [same]
    rcases theirs u d mem with ⟨-, rfl⟩ | mem
    · exact unanswered
    · exact under_way u d mem
  · intro u v d memu memv
    rcases theirs u d memu with ⟨rfl, rfl⟩ | memu'
    · exact (mine v memv).symm
    · rcases theirs v d memv with ⟨rfl, rfl⟩ | memv'
      · exact mine u memu
      · exact apart u v d memu' memv'
  · intro d mem
    rw [same]
    refine ⟨(new d (List.mem_cons_of_mem _ mem)).1, fun u memu => ?_⟩
    rcases theirs u d memu with ⟨-, rfl⟩ | memu
    · exact first mem
    · exact (new d (List.mem_cons_of_mem _ mem)).2 u memu

/-- Where a call is answered. -/
theorem Fresh.answer {actions : List (Action E)} (f : Fresh s (a :: actions)) {t : Nat} {e : E}
    {result : Bool} (action : a.entry = none) (same : s'.answered = s.answered ++ [(e, result)])
    (was : (s.producers t).entry = [e]) (idle : (s'.producers t).entry = [])
    (others : ∀ u, u ≠ t → (s'.producers u).entry = (s.producers u).entry) : Fresh s' actions := by
  obtain ⟨answered, under_way, apart, to_come, new⟩ := f
  rw [List.filterMap_cons_none action] at to_come new
  have fst : s'.answered.map Prod.fst = s.answered.map Prod.fst ++ [e] := by
    rw [same, List.map_append, List.map_singleton]
  have own : e ∈ (s.producers t).entry := by
    rw [was]
    exact List.mem_singleton_self e
  have theirs : ∀ u, ∀ d ∈ (s'.producers u).entry, u ≠ t ∧ d ∈ (s.producers u).entry := by
    intro u d mem
    by_cases eq : u = t
    · rw [eq, idle] at mem
      cases mem
    · exact ⟨eq, others u eq ▸ mem⟩
  refine ⟨?_, ?_, ?_, to_come, ?_⟩
  · rw [fst]
    exact List.nodup_append_comm.mp (List.nodup_cons.mpr ⟨under_way t e own, answered⟩)
  · intro u d mem
    obtain ⟨ne, mem⟩ := theirs u d mem
    rw [fst, List.mem_append, List.mem_singleton]
    rintro (old | rfl)
    · exact under_way u d mem old
    · exact ne (apart u t d mem own)
  · intro u v d memu memv
    exact apart u v d (theirs u d memu).2 (theirs v d memv).2
  · intro d mem
    obtain ⟨unanswered, unused⟩ := new d mem
    rw [fst, List.mem_append, List.mem_singleton]
    refine ⟨?_, fun u memu => unused u (theirs u d memu).2⟩
    rintro (old | rfl)
    · exact unanswered old
    · exact unused t own

/-- A step keeps the entries apart. -/
theorem Fresh.step {actions : List (Action E)} (f : Fresh s (a :: actions)) (h : Step s a s') :
    Fresh s' actions := by
  cases h.calls with
  | none action same entries => exact f.pass action same entries
  | call t e action same idle now others => exact f.call action same now others
  | answer t e result action same was idle others => exact f.answer action same was idle others

/-! ## The shutdown -/

/-- The queue's invariant, with the answers. -/
structure Attended (s : State E) : Prop where
  consistent : Consistent s
  answered : Answered s
  closed : Closed s

theorem Attended.of_step (c : Attended s) (h : Step s a s') : Attended s' :=
  ⟨c.consistent.of_step h, c.answered.step c.consistent.locked h,
    c.closed.step c.consistent.locked c.consistent.settled h⟩

theorem attended_of_run {actions : List (Action E)} (ran : run step {} actions = some s) :
    Attended s :=
  run_keeps Attended (fun _ _ _ c h => c.of_step (step_cases h))
    ⟨consistent_new, rfl, ⟨nofun, nofun⟩⟩ ran

theorem fresh_of_run {actions : List (Action E)} (ran : run step {} actions = some s)
    (distinct : (actions.filterMap Action.entry).Nodup) : Fresh s [] := by
  refine run_consumes Fresh (fun _ _ _ _ f h => f.step (step_cases h)) ?_ ran
  exact ⟨.nil, nofun, nofun, distinct, fun _ _ => ⟨nofun, nofun⟩⟩

/-- **Shutdown drains the queue.** In every run, with any number of threads in `AsyncFlush` and with
spurious wake-ups: in every state in which the join of `StopFlush` has returned, the queue is empty,
and `Flush` was called once for each call of `AsyncFlush` that returned `true` and for no other.
Where no entry is brought in twice, an entry was flushed exactly once if its call returned `true`
and never if it returned `false`. -/
theorem shutdown_drains (actions : List (Action E)) (s : State E)
    (ran : run step {} actions = some s) (joined : s.stop = .joined) :
    s.asyncBuffer = [] ∧ s.flushed.Perm s.accepted ∧
      ((actions.filterMap Action.entry).Nodup →
        s.flushed.Nodup ∧ ∀ e result, (e, result) ∈ s.answered → (e ∈ s.flushed ↔ result = true)) := by
  obtain ⟨consistent, answered, closed⟩ := attended_of_run ran
  have returned := closed.joined joined
  obtain ⟨empty, -, -⟩ := consistent.settled.returned returned
  have nothing : s.delivering = [] := by
    unfold State.delivering
    split
    · exact closed.returned returned _
    · rfl
  have flushed : s.flushed.Perm s.accepted := by
    have pushed := consistent.accounted
    rw [Accounted, State.pending, returned, empty, answered, nothing, List.append_nil] at pushed
    simpa only [WorkerPc.inHand, List.append_nil] using pushed.symm
  refine ⟨empty, flushed, fun distinct => ?_⟩
  have once := (fresh_of_run ran distinct).answered
  refine ⟨flushed.nodup_iff.mpr ((accepted_sublist s).nodup once), fun e result mem => ?_⟩
  rw [flushed.mem_iff, mem_accepted]
  constructor
  · intro mem'
    have := List.inj_on_of_nodup_map once mem mem' rfl
    exact (Prod.mk.inj this).2
  · rintro rfl
    exact mem

/-- Thread 0 reads `exit` as false, `StopFlush` sets it, and thread 0 pushes all the same; thread 1
comes too late. -/
def lateThread : List (Action BufferFlush) :=
  [.call 0 (sampleFlush 0x61), .producer 0, .producer 0, .stopFlush, .producer 0, .producer 0,
    .producer 0, .call 1 (sampleFlush 0x62), .producer 1, .producer 1, .producer 1, .stopFlush,
    .worker, .worker, .worker, .worker, .worker, .stopFlush]

/-- The entry of thread 0 was flushed once, that of thread 1 never. -/
theorem shutdown_drains_late_thread :
    ∃ s, run step {} lateThread = some s ∧ s.stop = .joined ∧
      s.answered = [(sampleFlush 0x61, true), (sampleFlush 0x62, false)] ∧ s.asyncBuffer = [] ∧
      s.flushed.Nodup ∧ sampleFlush 0x61 ∈ s.flushed ∧ sampleFlush 0x62 ∉ s.flushed := by
  obtain ⟨s, ran, facts⟩ := Option.map_eq_some_iff.mp (show
    (run step {} lateThread).map (fun s => (s.stop, s.answered)) =
      some (.joined, [(sampleFlush 0x61, true), (sampleFlush 0x62, false)]) by decide +kernel)
  obtain ⟨joined, answered⟩ := Prod.mk.inj facts
  obtain ⟨empty, -, exact⟩ := shutdown_drains lateThread s ran joined
  obtain ⟨once, flushed⟩ := exact (by decide +kernel)
  refine ⟨s, ran, joined, answered, empty, once, ?_, ?_⟩
  · exact (flushed _ true (by rw [answered]; exact List.mem_cons_self)).mpr rfl
  · intro mem
    have := (flushed _ false (by rw [answered]; exact List.mem_cons_of_mem _ List.mem_cons_self)).mp mem
    cases this

end Dolin.Zap.FileFlush
