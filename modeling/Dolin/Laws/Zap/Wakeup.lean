import Dolin.Laws.Zap.FileFlush

/-!
# The wake-up at shutdown

`StopFlush` sets `exit` and notifies without `async_mtx`. `AsyncFlush` notifies with the mutex held,
so its notification cannot fall between the worker's last look into the queue and its wait. That of
`StopFlush` can: a worker that has read `exit` as false and has not parked yet misses it. No thread
notifies after that, since each finds `exit` set, and `StopFlush` waits in `join` for a worker that
nobody wakes.

Such a run is the only way to get there. A run in which `StopFlush` notifies at any other point of
the worker's loop never leaves the worker parked behind it.
-/

namespace Dolin.Zap.FileFlush

open Machine

variable {E : Type} {s s' : State E} {a : Action E}

/-- The thread is going to notify: it was let in, and `notify_all` is still ahead of it. -/
def ProducerPc.notifies : ProducerPc E → Bool
  | push _ | notify _ => true
  | idle | lock _ | testExit _ | unlock _ _ => false

/-- `StopFlush` is blocked in `join`, the worker is parked and nobody is going to notify it. -/
structure Stranded (s : State E) : Prop where
  stop : s.stop = .join
  parked : s.worker = .parked
  quiet : ∀ t, (s.producers t).notifies = false

/-- The action is not a spurious wake-up. -/
def Action.NotSpurious : Action E → Prop
  | .spurious => False
  | _ => True

/-- Where `StopFlush` notifies, the worker does not stand between its test of `exit` and its
wait. -/
def NotifiesHeard (s : State E) : Action E → Prop
  | .stopFlush => s.stop = .notify → s.worker ≠ .wait
  | _ => True

instance [DecidableEq E] (s : State E) : (a : Action E) → Decidable (NotifiesHeard s a)
  | .stopFlush => inferInstanceAs (Decidable (_ → _))
  | .worker | .spurious | .call _ _ | .producer _ => inferInstanceAs (Decidable True)

/-! ## The runs in which the notification is heard -/

/-- `exit` is set from the first step of `StopFlush` on. -/
def ExitSet (s : State E) : Prop := s.stop ≠ .idle → s.exit = true

theorem ExitSet.step (e : ExitSet s) (h : Step s a s') : ExitSet s' := by
  unfold ExitSet at *
  cases h with
  | stop pc => exact fun _ => rfl
  | stopNotify pc => exact fun _ => e (by rw [pc]; nofun)
  | join pc done => exact fun _ => e (by rw [pc]; nofun)
  | _ => exact e

/-- Once `StopFlush` has notified, the worker neither is parked nor is about to park. -/
def Awake (s : State E) : Prop :=
  s.stop = .join ∨ s.stop = .joined → s.worker ≠ .wait ∧ s.worker ≠ .parked

theorem WorkerPc.notified_ne_wait {pc : WorkerPc E} (other : pc ≠ .wait) : pc.notified ≠ .wait := by
  cases pc with
  | wait => exact absurd rfl other
  | _ => nofun

theorem Awake.step (e : ExitSet s) (w : Awake s) (heard : NotifiesHeard s a) (h : Step s a s') :
    Awake s' := by
  unfold Awake at *
  cases h with
  | stay pc exit =>
    -- `exit` is not set, so `StopFlush` has not begun
    intro past
    have set := e (by rcases past with at_ | at_ <;> rw [at_] <;> nofun)
    rw [exit] at set
    cases set
  | park pc => exact fun past => absurd pc (w past).1
  | stop pc => exact fun past => by rcases past with at_ | at_ <;> cases at_
  | stopNotify pc => exact fun _ => ⟨WorkerPc.notified_ne_wait (heard pc), s.worker.notified_ne_parked⟩
  | join pc done => exact fun _ => w (.inl pc)
  | notify t e' pc =>
    exact fun past => ⟨WorkerPc.notified_ne_wait (w past).1, s.worker.notified_ne_parked⟩
  | call t e' pc => exact w
  | enter t e' pc free => exact w
  | refuse t e' pc exit => exact w
  | accept t e' pc exit => exact w
  | push t e' pc => exact w
  | answer t e' result pc => exact w
  | _ => exact fun _ => ⟨nofun, nofun⟩

/-! ## The runs in which it is not -/

/-- The worker is parked or about to park, with `StopFlush` past its notification and nobody left
to notify. -/
structure Doomed (s : State E) : Prop where
  stop : s.stop = .join
  exit : s.exit = true
  worker : s.worker = .wait ∨ s.worker = .parked
  quiet : ∀ t, (s.producers t).notifies = false

/-- The notification is missed: the worker holds the mutex, so no thread was let in before, and
`exit` keeps out those that come after. -/
theorem Doomed.of_unheard (l : Locked s) (e : ExitSet s) (unheard : ¬ NotifiesHeard s a)
    (h : Step s a s') : Doomed s' := by
  cases h with
  | stopNotify pc =>
    have at_ : s.worker = .wait := by
      by_contra ne
      exact unheard fun _ => ne
    refine ⟨rfl, e (by rw [pc]; nofun), .inl ?_, ?_⟩
    · change s.worker.notified = .wait
      rw [at_]
      rfl
    · intro t
      have held : s.asyncMtx = some .worker := l.worker.mp (by rw [at_]; rfl)
      have out : ¬ (s.producers t).holds = true := by
        rw [l.producer t, held]
        nofun
      change (s.producers t).notifies = false
      cases at_' : s.producers t with
      | push e' => rw [at_'] at out; exact absurd rfl out
      | notify e' => rw [at_'] at out; exact absurd rfl out
      | _ => rfl
  | stop pc => exact absurd (fun at_ => by rw [pc] at at_; cases at_) unheard
  | join pc done => exact absurd (fun at_ => by rw [pc] at at_; cases at_) unheard
  | _ => exact absurd trivial unheard

/-- Moving a thread to where it does not notify leaves none that does. -/
theorem Doomed.of_move (d : Doomed s) {t : Nat} {pc : ProducerPc E} (silent : pc.notifies = false)
    (u : Nat) : ((s.setProducer t pc).producers u).notifies = false := by
  rw [State.setProducer_producers]
  split
  · exact silent
  · exact d.quiet u

/-- Nothing but a spurious wake-up gets the worker out, and one that is parked stays parked. -/
theorem Doomed.stays (d : Doomed s) (real : a.NotSpurious) (h : Step s a s') :
    Doomed s' ∧ (s.worker = .parked → s'.worker = .parked) := by
  have elsewhere : ∀ pc : WorkerPc E, s.worker = pc → pc ≠ .wait → pc ≠ .parked → False := by
    rintro pc at_ notWait notParked
    rcases d.worker with w | w
    · exact notWait (at_.symm.trans w)
    · exact notParked (at_.symm.trans w)
  cases h with
  | park pc => exact ⟨⟨d.stop, d.exit, .inr rfl, d.quiet⟩, fun _ => rfl⟩
  | spurious pc => cases real
  | call t e pc => exact ⟨⟨d.stop, d.exit, d.worker, d.of_move rfl⟩, id⟩
  | enter t e pc free => exact ⟨⟨d.stop, d.exit, d.worker, d.of_move rfl⟩, id⟩
  | refuse t e pc exit => exact ⟨⟨d.stop, d.exit, d.worker, d.of_move rfl⟩, id⟩
  | accept t e pc exit => rw [d.exit] at exit; cases exit
  | push t e pc => have := d.quiet t; rw [pc] at this; cases this
  | notify t e pc => have := d.quiet t; rw [pc] at this; cases this
  | answer t e result pc => exact ⟨⟨d.stop, d.exit, d.worker, d.of_move rfl⟩, id⟩
  | stop pc => rw [d.stop] at pc; cases pc
  | stopNotify pc => rw [d.stop] at pc; cases pc
  | join pc done => exact (elsewhere _ done nofun nofun).elim
  | lock pc free => exact (elsewhere _ pc nofun nofun).elim
  | take rest e pc queue => exact (elsewhere _ pc nofun nofun).elim
  | drained pc queue => exact (elsewhere _ pc nofun nofun).elim
  | flush e pc => exact (elsewhere _ pc nofun nofun).elim
  | leave pc exit => exact (elsewhere _ pc nofun nofun).elim
  | stay pc exit => exact (elsewhere _ pc nofun nofun).elim
  | relock pc free => exact (elsewhere _ pc nofun nofun).elim
  | unlock pc => exact (elsewhere _ pc nofun nofun).elim

/-- The worker's own next step, if it still has one, parks it. -/
theorem Doomed.parks (d : Doomed s) :
    ∃ k s', k ≤ 1 ∧ run step s (List.replicate k .worker) = some s' ∧ Doomed s' ∧
      s'.worker = .parked := by
  rcases d.worker with at_ | at_
  · have parked : s.workerStep = some { s with asyncMtx := none, worker := .parked } := by
      simp only [State.workerStep, at_]
    exact ⟨1, _, Nat.le_refl 1, Option.bind_eq_some_iff.mpr ⟨_, parked, rfl⟩,
      ⟨d.stop, d.exit, .inr rfl, d.quiet⟩, rfl⟩
  · exact ⟨0, s, Nat.zero_le 1, rfl, d, at_⟩

theorem Doomed.stranded (d : Doomed s) (parked : s.worker = .parked) : Stranded s :=
  ⟨d.stop, parked, d.quiet⟩

/-! ## The shutdown -/

/-- **The wake-up at shutdown.** In every run without spurious wake-ups, for any number of threads in
`AsyncFlush`: where every notification of `StopFlush` finds the worker elsewhere than between its
test of `exit` and its wait, the worker is not stranded. Where one does not, the worker is stranded,
now or after its own next step, and stays so whatever any thread does. -/
theorem shutdown_strands_iff (actions : List (Action E)) (s : State E)
    (ran : run step {} actions = some s) (real : ∀ a ∈ actions, a.NotSpurious) :
    (Meets step NotifiesHeard {} actions → ¬ Stranded s) ∧
    (¬ Meets step NotifiesHeard {} actions →
      ∃ k s', k ≤ 1 ∧ run step s (List.replicate k .worker) = some s' ∧
        ∀ more s'', (∀ a ∈ more, a.NotSpurious) → run step s' more = some s'' → Stranded s'') := by
  constructor
  · intro heard stranded
    have awake : ExitSet s ∧ Awake s := run_keeps_of_meets (fun s => ExitSet s ∧ Awake s)
      (fun s a s' inv heard h =>
        ⟨inv.1.step (step_cases h), inv.2.step inv.1 heard (step_cases h)⟩)
      ⟨fun began => absurd rfl began, fun past => by rcases past with at_ | at_ <;> cases at_⟩
      heard ran
    exact (awake.2 (.inl stranded.stop)).2 stranded.parked
  · intro unheard
    have doomed : Doomed s := by
      have ends := meets_or_ends (P := NotifiesHeard) (fun s => Consistent s ∧ ExitSet s) Doomed
        (fun s a s' inv h => ⟨inv.1.of_step (step_cases h), inv.2.step (step_cases h)⟩)
        (fun s a s' inv lapse h => .of_unheard inv.1.locked inv.2 lapse (step_cases h))
        (fun s a s' real d h => (d.stays real (step_cases h)).1)
        ⟨consistent_new, fun began => absurd rfl began⟩ real ran
      exact ends.resolve_left unheard
    obtain ⟨k, s', bound, parks, doomed', parked⟩ := doomed.parks
    refine ⟨k, s', bound, parks, ?_⟩
    intro more s'' real' ran'
    have met : Meets step (fun _ a => a.NotSpurious) s' more := meets_of_forall s' real'
    have stays : Doomed s'' ∧ s''.worker = .parked :=
      run_keeps_of_meets (fun s => Doomed s ∧ s.worker = .parked)
        (fun s a s' inv real h => (inv.1.stays real (step_cases h)).imp_right (· inv.2))
        ⟨doomed', parked⟩ met ran'
    exact stays.1.stranded stays.2

/-- The worker has locked, found the queue empty and read `exit`. `StopFlush` runs up to its `join`,
and the worker parks. -/
def missedNotification : List (Action BufferFlush) :=
  [.worker, .worker, .worker, .stopFlush, .stopFlush, .worker]

/-- Here the worker sleeps for good, and `StopFlush` with it. -/
theorem missed_notification_strands :
    ∃ s, run step {} missedNotification = some s ∧ (∀ a ∈ missedNotification, a.NotSpurious) ∧
      Stranded s := by
  refine ⟨_, rfl, ?_, ⟨rfl, rfl, fun _ => rfl⟩⟩
  simp [missedNotification, Action.NotSpurious]

/-- The worker has parked when `StopFlush` notifies. -/
def heardNotification : List (Action BufferFlush) :=
  [.worker, .worker, .worker, .worker, .stopFlush, .stopFlush]

/-- One step of the worker more before the notification, and it is heard. -/
theorem shutdown_strands_iff_parked :
    ∃ s, run step {} heardNotification = some s ∧ s.stop = .join ∧ ¬ Stranded s := by
  have real : ∀ a ∈ heardNotification, a.NotSpurious := by
    simp [heardNotification, Action.NotSpurious]
  exact ⟨_, rfl, rfl, (shutdown_strands_iff heardNotification _ rfl real).1 (by decide +kernel)⟩

end Dolin.Zap.FileFlush
