import Dolin.Zap.FileFlush

/-!
# The laws of the flush queue

`Step` says what each step of each thread can do. The invariants are read off it: who holds the
mutex, where the queue is empty, and that the queue neither loses nor duplicates an entry. They hold
for any number of threads in `AsyncFlush`, with spurious wake-ups and with `StopFlush` at any time.

The worker takes from the back of the queue, so entries leave in the order they came in only where
none is pushed behind another.
-/

namespace Dolin.Zap.FileFlush

open Region Machine

variable {E : Type} {s s' : State E} {a : Action E}

/-! ## What a step can do -/

/-- The steps of `FileFlush`, one constructor for each. -/
inductive Step (s : State E) : Action E → State E → Prop
  | lock (pc : s.worker = .lock) (free : s.asyncMtx = none) :
      Step s .worker { s with asyncMtx := some .worker, worker := .drain }
  | take (rest : List E) (e : E) (pc : s.worker = .drain) (queue : s.asyncBuffer = rest ++ [e]) :
      Step s .worker { s with asyncBuffer := rest, worker := .flush e }
  | drained (pc : s.worker = .drain) (queue : s.asyncBuffer = []) :
      Step s .worker { s with worker := .testExit }
  | flush (e : E) (pc : s.worker = .flush e) :
      Step s .worker { s with worker := .drain, flushed := s.flushed ++ [e] }
  | leave (pc : s.worker = .testExit) (exit : s.exit = true) :
      Step s .worker { s with asyncMtx := none, worker := .returned }
  | stay (pc : s.worker = .testExit) (exit : s.exit = false) :
      Step s .worker { s with worker := .wait }
  | park (pc : s.worker = .wait) : Step s .worker { s with asyncMtx := none, worker := .parked }
  | relock (pc : s.worker = .woken) (free : s.asyncMtx = none) :
      Step s .worker { s with asyncMtx := some .worker, worker := .unlock }
  | unlock (pc : s.worker = .unlock) : Step s .worker { s with asyncMtx := none, worker := .lock }
  | spurious (pc : s.worker = .parked) : Step s .spurious { s with worker := .woken }
  | call (t : Nat) (e : E) (pc : s.producers t = .idle) :
      Step s (.call t e) (s.setProducer t (.lock e))
  | enter (t : Nat) (e : E) (pc : s.producers t = .lock e) (free : s.asyncMtx = none) :
      Step s (.producer t) ({ s with asyncMtx := some (.producer t) }.setProducer t (.testExit e))
  | refuse (t : Nat) (e : E) (pc : s.producers t = .testExit e) (exit : s.exit = true) :
      Step s (.producer t) (s.setProducer t (.unlock e false))
  | accept (t : Nat) (e : E) (pc : s.producers t = .testExit e) (exit : s.exit = false) :
      Step s (.producer t) (s.setProducer t (.push e))
  | push (t : Nat) (e : E) (pc : s.producers t = .push e) :
      Step s (.producer t) ({ s with
        asyncBuffer := s.asyncBuffer ++ [e], pushed := s.pushed ++ [e] }.setProducer t (.notify e))
  | notify (t : Nat) (e : E) (pc : s.producers t = .notify e) :
      Step s (.producer t) (s.notifyAll.setProducer t (.unlock e true))
  | answer (t : Nat) (e : E) (result : Bool) (pc : s.producers t = .unlock e result) :
      Step s (.producer t) ({ s with
        asyncMtx := none, answered := s.answered ++ [(e, result)] }.setProducer t .idle)
  | stop (pc : s.stop = .idle) : Step s .stopFlush { s with exit := true, stop := .notify }
  | stopNotify (pc : s.stop = .notify) : Step s .stopFlush { s.notifyAll with stop := .join }
  | join (pc : s.stop = .join) (done : s.worker = .returned) :
      Step s .stopFlush { s with stop := .joined }

theorem workerStep_cases (h : s.workerStep = some s') : Step s .worker s' := by
  unfold State.workerStep at h
  split at h
  next pc =>
    split at h
    next free => cases h; exact .lock pc (Option.isNone_iff_eq_none.mp free)
    next => cases h
  next pc =>
    split at h
    next e last =>
      cases h
      exact .take _ e pc (List.dropLast_append_getLast? e last).symm
    next none => cases h; exact .drained pc (List.getLast?_eq_none_iff.mp none)
  next e pc => cases h; exact .flush e pc
  next pc =>
    split at h
    next exit => cases h; exact .leave pc exit
    next exit => cases h; exact .stay pc (Bool.eq_false_of_not_eq_true exit)
  next pc => cases h; exact .park pc
  next => cases h
  next pc =>
    split at h
    next free => cases h; exact .relock pc (Option.isNone_iff_eq_none.mp free)
    next => cases h
  next pc => cases h; exact .unlock pc
  next => cases h

theorem producerStep_cases {t : Nat} (h : s.producerStep t = some s') :
    Step s (.producer t) s' := by
  unfold State.producerStep at h
  split at h
  next => cases h
  next e pc =>
    split at h
    next free => cases h; exact .enter t e pc (Option.isNone_iff_eq_none.mp free)
    next => cases h
  next e pc =>
    split at h
    next exit => cases h; exact .refuse t e pc exit
    next exit => cases h; exact .accept t e pc (Bool.eq_false_of_not_eq_true exit)
  next e pc => cases h; exact .push t e pc
  next e pc => cases h; exact .notify t e pc
  next e result pc => cases h; exact .answer t e result pc

/-- **The inversion lemma**: every step is one of `Step`. -/
theorem step_cases (h : step s a = some s') : Step s a s' := by
  cases a with
  | worker => exact workerStep_cases h
  | spurious =>
    simp only [step] at h
    split at h
    next pc => cases h; exact .spurious pc
    next => cases h
  | call t e =>
    simp only [step] at h
    split at h
    next pc => cases h; exact .call t e pc
    next => cases h
  | producer t => exact producerStep_cases h
  | stopFlush =>
    simp only [step, State.stopStep] at h
    split at h
    next pc => cases h; exact .stop pc
    next pc => cases h; exact .stopNotify pc
    next pc =>
      split at h
      next done => cases h; exact .join pc done
      next => cases h
    next => cases h

/-! ## Who holds the mutex -/

/-- `async_mtx` is held by the thread that stands where it holds it, and by no other. -/
structure Locked (s : State E) : Prop where
  worker : s.worker.holds = true ↔ s.asyncMtx = some .worker
  producer : ∀ t, (s.producers t).holds = true ↔ s.asyncMtx = some (.producer t)

@[simp] theorem WorkerPc.holds_notified (pc : WorkerPc E) : pc.notified.holds = pc.holds := by
  cases pc <;> rfl

@[simp] theorem WorkerPc.inHand_notified (pc : WorkerPc E) : pc.notified.inHand = pc.inHand := by
  cases pc <;> rfl

theorem WorkerPc.notified_ne_parked (pc : WorkerPc E) : pc.notified ≠ .parked := by
  cases pc <;> nofun

@[simp] theorem WorkerPc.notified_eq_returned (pc : WorkerPc E) :
    pc.notified = .returned ↔ pc = .returned := by
  cases pc <;> simp [WorkerPc.notified]

@[simp] theorem State.setProducer_producers (s : State E) (t u : Nat) (pc : ProducerPc E) :
    (s.setProducer t pc).producers u = if u = t then pc else s.producers u :=
  Function.update_apply ..

/-- The step keeps the mutex: whoever takes it found it free, and whoever leaves held it. -/
theorem Locked.step (l : Locked s) (h : Step s a s') : Locked s' := by
  obtain ⟨w, p⟩ := l
  constructor
  · cases h <;> grind [WorkerPc.holds, ProducerPc.holds, State.setProducer, State.notifyAll,
      WorkerPc.holds_notified]
  · intro t
    cases h <;> grind [WorkerPc.holds, ProducerPc.holds, State.setProducer, State.notifyAll,
      State.setProducer_producers, WorkerPc.holds_notified]

/-! ## Where the queue is empty -/

/-- Past its inner loop the worker has left nothing in the queue, and nothing comes in unnoticed. -/
structure Settled (s : State E) : Prop where
  testing : s.worker = .testExit ∨ s.worker = .wait → s.asyncBuffer = []
  parked : s.worker = .parked → s.asyncBuffer = [] ∨ ∃ t e, s.producers t = .notify e
  returned : s.worker = .returned →
    s.asyncBuffer = [] ∧ s.exit = true ∧ ∀ t e, s.producers t ≠ .push e

/-- Moving a thread that does not notify leaves the one that does. -/
theorem Settled.parked_of_move (q : Settled s) {t : Nat} (pc : ProducerPc E)
    (other : ∀ e, s.producers t ≠ .notify e) (at_ : s.worker = .parked) :
    s.asyncBuffer = [] ∨ ∃ u e, (s.setProducer t pc).producers u = .notify e := by
  rcases q.parked at_ with nil | ⟨u, e, hu⟩
  · exact .inl nil
  · refine .inr ⟨u, e, ?_⟩
    have ne : u ≠ t := by
      rintro rfl
      exact other e hu
    rw [State.setProducer_producers, if_neg ne, hu]

/-- Moving a thread, but not to its push, changes nothing for a worker that has returned. -/
theorem Settled.returned_of_move (q : Settled s) {t : Nat} {pc : ProducerPc E}
    (other : ∀ e, pc ≠ .push e) (at_ : s.worker = .returned) :
    s.asyncBuffer = [] ∧ s.exit = true ∧ ∀ u e, (s.setProducer t pc).producers u ≠ .push e := by
  obtain ⟨empty, exit, away⟩ := q.returned at_
  refine ⟨empty, exit, ?_⟩
  intro u e
  rw [State.setProducer_producers]
  split
  · exact other e
  · exact away u e

theorem Settled.step (l : Locked s) (q : Settled s) (h : Step s a s') : Settled s' := by
  obtain ⟨w, p⟩ := l
  obtain ⟨testing, parked, returned⟩ := id q
  constructor
  · cases h <;> grind [WorkerPc.holds, ProducerPc.holds, State.setProducer, State.notifyAll,
      WorkerPc.notified]
  · intro at_
    cases h with
    | park pc => exact .inl (testing (.inr pc))
    | call t e pc => exact q.parked_of_move _ (by rw [pc]; nofun) at_
    | enter t e pc free => exact q.parked_of_move _ (by rw [pc]; nofun) at_
    | refuse t e pc exit => exact q.parked_of_move _ (by rw [pc]; nofun) at_
    | accept t e pc exit => exact q.parked_of_move _ (by rw [pc]; nofun) at_
    | push t e pc => exact .inr ⟨t, e, by rw [State.setProducer_producers, if_pos rfl]⟩
    | notify t e pc => exact absurd at_ (WorkerPc.notified_ne_parked _)
    | answer t e result pc => exact q.parked_of_move _ (by rw [pc]; nofun) at_
    | stop pc => exact parked at_
    | stopNotify pc => exact absurd at_ (WorkerPc.notified_ne_parked _)
    | join pc done => exact parked at_
    | _ => cases at_
  · intro at_
    cases h with
    | leave pc exit =>
      refine ⟨testing (.inl pc), exit, ?_⟩
      -- the worker held the mutex, so no thread stood at its push
      intro t e hp
      have mine := w.mp (by rw [pc]; rfl)
      have theirs := (p t).mp (by rw [hp]; rfl)
      rw [mine] at theirs
      cases theirs
    | call t e pc => exact q.returned_of_move nofun at_
    | enter t e pc free => exact q.returned_of_move nofun at_
    | refuse t e pc exit => exact q.returned_of_move nofun at_
    | accept t e pc exit =>
      rw [(returned at_).2.1] at exit
      cases exit
    | push t e pc => exact absurd pc ((returned at_).2.2 t e)
    | notify t e pc =>
      exact q.returned_of_move nofun ((WorkerPc.notified_eq_returned _).mp at_)
    | answer t e result pc => exact q.returned_of_move nofun at_
    | stop pc => exact ⟨(returned at_).1, rfl, (returned at_).2.2⟩
    | stopNotify pc => exact returned ((WorkerPc.notified_eq_returned _).mp at_)
    | join pc done => exact returned at_
    | _ => cases at_

/-! ## No entry is lost -/

/-- What a step does to the entries: nothing; the last of the queue comes into the worker's hand;
the one in its hand is flushed; or one more is pushed. -/
inductive Moves (s : State E) (a : Action E) (s' : State E) : Prop
  | none (queue : s'.asyncBuffer = s.asyncBuffer) (hand : s'.worker.inHand = s.worker.inHand)
      (pushed : s'.pushed = s.pushed) (flushed : s'.flushed = s.flushed)
  | take (e : E) (queue : s.asyncBuffer = s'.asyncBuffer ++ [e]) (free : s.worker.inHand = [])
      (hand : s'.worker.inHand = [e]) (pushed : s'.pushed = s.pushed)
      (flushed : s'.flushed = s.flushed)
  | flush (e : E) (queue : s'.asyncBuffer = s.asyncBuffer) (hand : s.worker.inHand = [e])
      (free : s'.worker.inHand = []) (pushed : s'.pushed = s.pushed)
      (flushed : s'.flushed = s.flushed ++ [e])
  | push (t : Nat) (e : E) (action : a = .producer t) (pc : s.producers t = .push e)
      (queue : s'.asyncBuffer = s.asyncBuffer ++ [e]) (hand : s'.worker.inHand = s.worker.inHand)
      (pushed : s'.pushed = s.pushed ++ [e]) (flushed : s'.flushed = s.flushed)

theorem Step.moves (h : Step s a s') : Moves s a s' := by
  cases h with
  | take rest e pc queue => exact .take e queue (by rw [pc]; rfl) rfl rfl rfl
  | flush e pc => exact .flush e rfl (by rw [pc]; rfl) rfl rfl rfl
  | push t e pc => exact .push t e rfl pc rfl rfl rfl rfl
  | lock pc free => exact .none rfl (by rw [pc]; rfl) rfl rfl
  | drained pc queue => exact .none rfl (by rw [pc]; rfl) rfl rfl
  | leave pc exit => exact .none rfl (by rw [pc]; rfl) rfl rfl
  | stay pc exit => exact .none rfl (by rw [pc]; rfl) rfl rfl
  | park pc => exact .none rfl (by rw [pc]; rfl) rfl rfl
  | relock pc free => exact .none rfl (by rw [pc]; rfl) rfl rfl
  | unlock pc => exact .none rfl (by rw [pc]; rfl) rfl rfl
  | spurious pc => exact .none rfl (by rw [pc]; rfl) rfl rfl
  | notify t e pc => exact .none rfl (WorkerPc.inHand_notified _) rfl rfl
  | stopNotify pc => exact .none rfl (WorkerPc.inHand_notified _) rfl rfl
  | _ => exact .none rfl rfl rfl rfl

/-- Every entry that was pushed is flushed, in the worker's hand or in the queue, once for each
push. -/
def Accounted (s : State E) : Prop := s.pushed.Perm (s.flushed ++ s.pending)

theorem Accounted.step (q : Accounted s) (h : Step s a s') : Accounted s' := by
  unfold Accounted State.pending at *
  cases h.moves with
  | none queue hand pushed flushed => rwa [queue, hand, pushed, flushed]
  | take e queue free hand pushed flushed =>
    rw [hand, pushed, flushed]
    rw [queue, free, List.nil_append] at q
    exact q.trans (List.Perm.append_left _ List.perm_append_comm)
  | flush e queue hand free pushed flushed =>
    rw [queue, free, pushed, flushed, List.append_assoc]
    rwa [hand] at q
  | push t e _ _ queue hand pushed flushed =>
    rw [queue, hand, pushed, flushed, ← List.append_assoc, ← List.append_assoc]
    rw [← List.append_assoc] at q
    exact q.append_right [e]

/-- The invariant of every run. -/
structure Consistent (s : State E) : Prop where
  locked : Locked s
  settled : Settled s
  accounted : Accounted s

theorem Consistent.of_step (c : Consistent s) (h : Step s a s') : Consistent s' :=
  ⟨c.locked.step h, c.settled.step c.locked h, c.accounted.step h⟩

theorem consistent_new : Consistent (E := E) {} :=
  ⟨⟨by simp [WorkerPc.holds], fun _ => by simp [ProducerPc.holds]⟩,
    ⟨fun h => by simp at h, nofun, nofun⟩, .nil⟩

/-! ## The worker gets through -/

/-- Some number of the worker's own steps flushes everything that was pushed. -/
def Drains (s : State E) : Prop :=
  ∃ k s', run step s (List.replicate k .worker) = some s' ∧ s'.pending = [] ∧ s'.pushed = s.pushed

/-- One step of the worker first. -/
theorem Drains.of_step {s₁ : State E} (first : s.workerStep = some s₁)
    (same : s₁.pushed = s.pushed) (h : Drains s₁) : Drains s := by
  obtain ⟨k, s', ran, pending, pushed⟩ := h
  exact ⟨k + 1, s', Option.bind_eq_some_iff.mpr ⟨s₁, first, ran⟩, pending, pushed.trans same⟩

/-- The inner loop ends: each round takes one entry off the queue. -/
theorem drains_of_drain {n : Nat} (pc : s.worker = .drain) (len : s.asyncBuffer.length = n) :
    Drains s := by
  induction n generalizing s with
  | zero =>
    refine ⟨0, s, rfl, ?_, rfl⟩
    rw [State.pending, pc, List.length_eq_zero_iff.mp len]
    rfl
  | succ n ih =>
    have ne : s.asyncBuffer ≠ [] := List.length_pos_iff.mp (by omega)
    have taken : s.workerStep = some { s with
        asyncBuffer := s.asyncBuffer.dropLast, worker := .flush (s.asyncBuffer.getLast ne) } := by
      simp only [State.workerStep, pc, List.getLast?_eq_getLast_of_ne_nil ne]
    refine .of_step taken rfl (.of_step rfl rfl (ih rfl ?_))
    rw [List.length_dropLast]
    omega

theorem drains_of_lock (pc : s.worker = .lock) (free : s.asyncMtx = none) : Drains s := by
  have locked : s.workerStep = some { s with asyncMtx := some .worker, worker := .drain } := by
    simp only [State.workerStep, pc, free, Option.isNone_none, if_true]
  exact .of_step locked rfl (drains_of_drain rfl rfl)

theorem drains_of_unlock (pc : s.worker = .unlock) : Drains s := by
  have unlocked : s.workerStep = some { s with asyncMtx := none, worker := .lock } := by
    simp only [State.workerStep, pc]
  exact .of_step unlocked rfl (drains_of_lock rfl rfl)

/-- **The worker gets through.** Where no thread holds the mutex in `AsyncFlush`, the worker's own
steps lead to a state in which everything that was pushed is flushed. -/
theorem Consistent.drains (c : Consistent s) (outside : ∀ t, (s.producers t).holds = false) :
    Drains s := by
  have theirs : ∀ t, s.asyncMtx ≠ some (.producer t) := by
    intro t held
    have := (c.locked.producer t).mpr held
    rw [outside t] at this
    cases this
  have free : s.worker.holds = false → s.asyncMtx = none := by
    intro out
    cases held : s.asyncMtx with
    | none => rfl
    | some owner =>
      cases owner with
      | worker => rw [c.locked.worker.mpr held] at out; cases out
      | producer t => exact absurd held (theirs t)
  have empty : s.asyncBuffer = [] → s.worker.inHand = [] → Drains s := fun queue hand =>
    ⟨0, s, rfl, by rw [State.pending, queue, hand]; rfl, rfl⟩
  cases pc : s.worker with
  | lock => exact drains_of_lock pc (free (by rw [pc]; rfl))
  | drain => exact drains_of_drain pc rfl
  | flush e =>
    have flushed : s.workerStep = some { s with worker := .drain, flushed := s.flushed ++ [e] } := by
      simp only [State.workerStep, pc]
    exact .of_step flushed rfl (drains_of_drain rfl rfl)
  | testExit => exact empty (c.settled.testing (.inl pc)) (by rw [pc]; rfl)
  | wait => exact empty (c.settled.testing (.inr pc)) (by rw [pc]; rfl)
  | parked =>
    rcases c.settled.parked pc with queue | ⟨t, e, notifies⟩
    · exact empty queue (by rw [pc]; rfl)
    · have := outside t
      rw [notifies] at this
      cases this
  | woken =>
    have locked : s.workerStep = some { s with asyncMtx := some .worker, worker := .unlock } := by
      simp only [State.workerStep, pc, free (by rw [pc]; rfl), Option.isNone_none, if_true]
    exact .of_step locked rfl (drains_of_unlock rfl)
  | unlock => exact drains_of_unlock pc
  | returned => exact empty (c.settled.returned pc).1 (by rw [pc]; rfl)

/-! ## The view of a thread

What the steps of a queue mean to the one thread that pushes to it. -/

/-- The action is one of thread `t`, of the worker or of `StopFlush`. -/
def Action.By (t : Nat) : Action E → Prop
  | .call u _ => u = t
  | .producer u => u = t
  | _ => True

/-- Other threads stay where they are. -/
theorem Step.others {t u : Nat} (h : Step s a s') (own : a.By t) (ne : u ≠ t) :
    s'.producers u = s.producers u := by
  cases h <;> simp_all [Action.By, State.notifyAll]

/-- The worker moves no thread, and answers none. -/
theorem Step.worker_frame (h : Step s .worker s') :
    s'.producers = s.producers ∧ s'.exit = s.exit ∧ s'.answered = s.answered ∧
      s'.pushed = s.pushed := by
  cases h <;> exact ⟨rfl, rfl, rfl, rfl⟩

/-- Nor does a spurious wake-up. -/
theorem Step.spurious_frame (h : Step s .spurious s') :
    s'.producers = s.producers ∧ s'.exit = s.exit ∧ s'.answered = s.answered ∧
      s'.pushed = s.pushed := by
  cases h
  exact ⟨rfl, rfl, rfl, rfl⟩

/-- An entry that is pending was pending before, or its thread pushed it. -/
theorem Step.pending {t : Nat} (h : Step s a s') (own : a.By t) {e : E} (mem : e ∈ s'.pending) :
    e ∈ s.pending ∨ e ∈ (s.producers t).carries := by
  unfold State.pending at *
  cases h.moves with
  | none queue hand _ _ =>
    rw [queue, hand] at mem
    exact .inl mem
  | take e' queue free hand _ _ =>
    rw [hand] at mem
    rw [queue, free, List.nil_append]
    exact .inl ((List.perm_append_comm.mem_iff).mp mem)
  | flush e' queue hand free _ _ =>
    rw [queue, free] at mem
    rw [hand]
    exact .inl (List.mem_cons_of_mem _ mem)
  | push u e' action pc queue hand _ _ =>
    subst action
    cases own
    rw [queue, hand, ← List.append_assoc] at mem
    rcases List.mem_append.mp mem with old | new
    · exact .inl old
    · refine .inr ?_
      rw [pc]
      exact new

/-- An entry that is flushed was flushed before, or was in the worker's hand. -/
theorem Step.flushed (h : Step s a s') {e : E} (mem : e ∈ s'.flushed) :
    e ∈ s.flushed ∨ e ∈ s.worker.inHand := by
  cases h.moves with
  | flush e' queue hand free pushed flushed =>
    rw [flushed] at mem
    rw [hand]
    exact List.mem_append.mp mem
  | none queue hand pushed flushed => exact .inl (flushed ▸ mem)
  | take e' queue free hand pushed flushed => exact .inl (flushed ▸ mem)
  | push t e' action pc queue hand pushed flushed => exact .inl (flushed ▸ mem)

/-- An entry that a thread carries it carried before, or was called with. -/
theorem Step.carries {t : Nat} (h : Step s a s') (own : a.By t) {e : E}
    (mem : e ∈ (s'.producers t).carries) :
    e ∈ (s.producers t).carries ∨ a = .call t e := by
  cases h <;> simp_all [Action.By, ProducerPc.carries, State.notifyAll]

/-- While `exit` is not set, what a thread brings in and has not pushed, it still carries. -/
theorem Step.carried {t : Nat} (h : Step s (.producer t) s') (running : s.exit = false) :
    s'.pushed ++ (s'.producers t).carries = s.pushed ++ (s.producers t).carries := by
  cases h with
  | refuse _ e pc exit =>
    rw [exit] at running
    cases running
  | enter _ e pc free => simp [pc, ProducerPc.carries, State.setProducer]
  | accept _ e pc exit => simp [pc, ProducerPc.carries, State.setProducer]
  | push _ e pc => simp [pc, ProducerPc.carries, State.setProducer]
  | notify _ e pc => simp [pc, ProducerPc.carries, State.setProducer, State.notifyAll]
  | answer _ e result pc => simp [pc, ProducerPc.carries, State.setProducer]

/-! ## The order of the log -/

/-- A push finds the queue empty. -/
def PushesAlone (s : State E) : Action E → Prop
  | .producer t =>
    match s.producers t with
    | .push _ => s.asyncBuffer = []
    | _ => True
  | _ => True

instance (s : State E) (a : Action E) : Decidable (PushesAlone s a) := by
  unfold PushesAlone
  split
  · split <;> infer_instance
  · infer_instance

theorem PushesAlone.empty {t : Nat} {e : E} (alone : PushesAlone s (.producer t))
    (pc : s.producers t = .push e) : s.asyncBuffer = [] := by
  rwa [PushesAlone, pc] at alone

/-- Entries leave in the order they came in. -/
structure Ordered (s : State E) : Prop where
  order : s.flushed ++ s.pending = s.pushed
  single : s.asyncBuffer.length ≤ 1

theorem Ordered.step (o : Ordered s) (alone : PushesAlone s a) (h : Step s a s') : Ordered s' := by
  obtain ⟨order, single⟩ := o
  unfold State.pending at order
  cases h.moves with
  | none queue hand pushed flushed =>
    exact ⟨by rwa [State.pending, queue, hand, pushed, flushed], by rwa [queue]⟩
  | take e queue free hand pushed flushed =>
    -- the back of a queue of one is its front
    have rest : s'.asyncBuffer = [] := by
      rw [queue, List.length_append, List.length_singleton] at single
      exact List.length_eq_zero_iff.mp (by omega)
    rw [queue, rest, free] at order
    refine ⟨?_, by rw [rest]; exact Nat.zero_le _⟩
    rwa [State.pending, rest, hand, pushed, flushed]
  | flush e queue hand free pushed flushed =>
    rw [hand] at order
    refine ⟨?_, by rwa [queue]⟩
    rwa [State.pending, queue, free, pushed, flushed, List.append_assoc]
  | push t e action pc queue hand pushed flushed =>
    subst action
    have empty := alone.empty pc
    rw [empty, List.append_nil] at order
    refine ⟨?_, by rw [queue, empty]; exact Nat.le_refl _⟩
    rw [State.pending, queue, empty, hand, pushed, flushed, List.nil_append, ← List.append_assoc,
      order]

/-- **The order of the log.** In every run in which each push finds the queue empty, whatever the
number of threads: once the worker has nothing left, what it appended to the file that all entries
are bound to is their payloads, in the order of the pushes. -/
theorem file_in_push_order (file : FILE) (actions : List (Action BufferFlush))
    (s : State BufferFlush) (ran : run step {} actions = some s)
    (alone : Meets step PushesAlone {} actions)
    (bound : ∀ f ∈ s.pushed, f.logFilePtr = some file) (drained : s.pending = []) :
    appendedTo file s.flushed = (s.pushed.map BufferFlush.payload).flatten := by
  have ordered : Ordered s := run_keeps_of_meets Ordered
    (fun _ _ _ o alone h => o.step alone (step_cases h)) ⟨rfl, Nat.zero_le _⟩ alone ran
  have order := ordered.order
  rw [drained, List.append_nil] at order
  rw [appendedTo, order]
  congr 1
  apply List.map_congr_left
  intro f mem
  exact if_pos (bound f mem)

/-- A flush of one byte to the log file `/a`. -/
def sampleFlush (b : UInt8) : BufferFlush :=
  { logFilePtr := some ⟨[0x2f, 0x61], 0⟩, path := some [0x2f, 0x61],
    data := some (b :: List.replicate 127 0), written := 1 }

/-- A whole `AsyncFlush` by thread 0. -/
def asyncFlush (f : BufferFlush) : List (Action BufferFlush) :=
  .call 0 f :: List.replicate 5 (.producer 0)

/-- `a` is flushed before `b` is pushed. -/
theorem file_in_push_order_alternating :
    ∃ s, run step {} (asyncFlush (sampleFlush 0x61) ++ List.replicate 6 .worker ++
        asyncFlush (sampleFlush 0x62) ++ List.replicate 5 .worker) = some s ∧
      appendedTo ⟨[0x2f, 0x61], 0⟩ s.flushed = (s.pushed.map BufferFlush.payload).flatten := by
  obtain ⟨s, ran, facts⟩ := Option.map_eq_some_iff.mp (show
    (run step {} (asyncFlush (sampleFlush 0x61) ++ List.replicate 6 .worker ++
      asyncFlush (sampleFlush 0x62) ++ List.replicate 5 .worker)).map
        (fun s => (s.pushed, s.pending)) = some ([sampleFlush 0x61, sampleFlush 0x62], []) by
    decide +kernel)
  obtain ⟨pushed, pending⟩ := Prod.mk.inj facts
  refine ⟨s, ran, file_in_push_order _ _ s ran (by decide +kernel) ?_ pending⟩
  rw [pushed]
  decide +kernel

/-- `b` is pushed behind `a` before the worker gets the mutex. Both are bound to `/a`, and the file
gets `b` first. -/
theorem two_queued_reversed :
    ∃ s, run step {} (asyncFlush (sampleFlush 0x61) ++ asyncFlush (sampleFlush 0x62) ++
        List.replicate 6 .worker) = some s ∧
      (∀ f ∈ s.pushed, f.logFilePtr = some ⟨[0x2f, 0x61], 0⟩) ∧ s.pending = [] ∧
      (s.pushed.map BufferFlush.payload).flatten = [0x61, 0x62] ∧
      appendedTo ⟨[0x2f, 0x61], 0⟩ s.flushed = [0x62, 0x61] := by
  obtain ⟨s, ran, facts⟩ := Option.map_eq_some_iff.mp (show
    (run step {} (asyncFlush (sampleFlush 0x61) ++ asyncFlush (sampleFlush 0x62) ++
      List.replicate 6 .worker)).map (fun s => (s.pushed, s.pending, s.flushed)) =
        some ([sampleFlush 0x61, sampleFlush 0x62], [], [sampleFlush 0x62, sampleFlush 0x61]) by
    decide +kernel)
  simp only [Prod.mk.injEq] at facts
  obtain ⟨pushed, pending, flushed⟩ := facts
  refine ⟨s, ran, ?_, pending, ?_, ?_⟩
  · rw [pushed]
    decide +kernel
  · rw [pushed]
    decide +kernel
  · rw [flushed]
    decide +kernel

end Dolin.Zap.FileFlush
