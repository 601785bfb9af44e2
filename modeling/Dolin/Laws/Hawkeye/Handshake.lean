import Dolin.Hawkeye.Handshake

/-!
# When the handshake gets stuck

`Step` says what each step can do. Two invariants are read off it: what a client has sent is what the
daemon has read of it and what is in flight (`Counted`), and, once the pipe is written, the client
that is served has sent its whole message (`Complete`).

A client whose `send` was short or failed waits for its reply all the same, and the daemon waits for
the rest of the message. And the receive loop looks at the pipe only in the set that it gave to
`select`, where it never put it.
-/

namespace Dolin.Hawkeye.Handshake

open Machine

variable {size : Nat} {outcomes : Nat → Option Nat} {s s' : State} {a : Action}

/-! ## What a step can do -/

/-- The client whose message the daemon receives, and how much of it has been read. -/
def DaemonPc.serving : DaemonPc → Option (Nat × Nat)
  | recvSelect c overallRead | recv c overallRead => some (c, overallRead)
  | _ => none

/-- The steps, one constructor for each. -/
inductive Step (size : Nat) (outcomes : Nat → Option Nat) (s : State) : Action → State → Prop
  | connect (c : Nat) (idle : (s.clients c).pc = .idle) :
      Step size outcomes s (.connect c) { s.setClient c { s.clients c with pc := .sending 0 } with
        backlog := s.backlog ++ [c] }
  | deliver (c n delivered : Nat) (pc : (s.clients c).pc = .sending delivered) :
      Step size outcomes s (.deliver c n) (s.setClient c { s.clients c with
        pc := .sending (delivered + n), inFlight := (s.clients c).inFlight + n })
  | sent (c : Nat) (pc : (s.clients c).pc = .sending (sentBytes outcomes c)) :
      Step size outcomes s (.sent c) (s.setClient c { s.clients c with pc := .waiting })
  | recvReturns (c : Nat) (fails : Bool) (pc : (s.clients c).pc = .waiting) :
      Step size outcomes s (.recvReturns c fails) (s.setClient c { s.clients c with pc := .closing })
  | clientCloses (c : Nat) (pc : (s.clients c).pc = .closing) :
      Step size outcomes s (.clientCloses c) (s.setClient c { s.clients c with pc := .closed })
  | leave (outcome : Outcome) (pc : s.daemon = .acceptSelect) (other : ∀ n, outcome ≠ .bytes n) :
      Step size outcomes s (.daemon outcome) s.closeListener
  | listen (pc : s.daemon = .acceptSelect) (quiet : s.pipe = false) :
      Step size outcomes s (.daemon .succeeds) { s with daemon := .accept }
  | accept (c : Nat) (backlog : List Nat) (pc : s.daemon = .accept) (head : s.backlog = c :: backlog) :
      Step size outcomes s (.daemon .succeeds) { s with daemon := .recvSelect c 0, backlog }
  | acceptFails (pc : s.daemon = .accept) :
      Step size outcomes s (.daemon .fails) { s with daemon := .acceptSelect }
  | selectRecv (c overallRead : Nat) (pc : s.daemon = .recvSelect c overallRead)
      (ready : s.ready (.socket c) = true) :
      Step size outcomes s (.daemon .succeeds) { s with daemon := .recv c overallRead }
  | receive (c overallRead n : Nat) (pc : s.daemon = .recv c overallRead)
      (gives : (s.clients c).Gives (size - overallRead) n) :
      Step size outcomes s (.daemon (.bytes n)) (s.received size c overallRead n)
  | report (c : Nat) (pc : s.daemon = .report c) :
      Step size outcomes s (.daemon .succeeds) { s with daemon := .reply c }
  | reply (c : Nat) (pc : s.daemon = .reply c) :
      Step size outcomes s (.daemon .succeeds) { s.setClient c { s.clients c with reply := true } with
        daemon := .close c }
  | replyFails (c : Nat) (pc : s.daemon = .reply c) :
      Step size outcomes s (.daemon .fails) { s with daemon := .close c }
  | hangUp (c : Nat) (outcome : Outcome) (other : ∀ n, outcome ≠ .bytes n) :
      Step size outcomes s (.daemon outcome) (s.closeSocket c)
  | stopWrites : Step size outcomes s .stopWrites { s with pipe := true, stop := .join }
  | stopJoins : Step size outcomes s .stopJoins { s with stop := .joined }

theorem mem_selected {fd : Fd} : fd ∈ s.selected ↔ fd ∈ s.daemon.flag ∧ s.ready fd = true :=
  List.mem_filter

theorem daemonStep_cases {outcome : Outcome} (h : daemonStep size s outcome = some s') :
    Step size outcomes s (.daemon outcome) s' := by
  unfold daemonStep at h
  split at h
  next pc =>
    split at h
    next => cases h
    next =>
      split at h
      next => cases h; exact .leave _ pc nofun
      next quiet =>
        cases h
        refine .listen pc ?_
        -- the pipe is in this set
        rw [mem_selected, pc] at quiet
        simpa [DaemonPc.flag, State.ready] using quiet
  next pc => cases h; exact .leave _ pc nofun
  next pc =>
    split at h
    next => cases h
    next c backlog head => cases h; exact .accept c backlog pc head
  next pc => cases h; exact .acceptFails pc
  next c overallRead pc =>
    split at h
    next => cases h
    next ready =>
      split at h
      next => cases h; exact .hangUp c _ nofun
      next =>
        cases h
        refine .selectRecv c overallRead pc ?_
        obtain ⟨fd, mem⟩ := List.exists_mem_of_ne_nil _ ready
        rw [mem_selected, pc] at mem
        rw [← List.mem_singleton.mp mem.1]
        exact mem.2
  next c overallRead pc => cases h; exact .hangUp c _ nofun
  next c overallRead n pc =>
    split at h
    next gives => cases h; exact .receive c overallRead n pc gives
    next => cases h
  next c overallRead pc => cases h; exact .hangUp c _ nofun
  next c pc => cases h; exact .report c pc
  next c pc => cases h; exact .reply c pc
  next c pc => cases h; exact .replyFails c pc
  next c pc => cases h; exact .hangUp c _ nofun
  next => cases h

/-- **The inversion lemma**: every step is one of `Step`. -/
theorem step_cases (h : step size outcomes s a = some s') : Step size outcomes s a s' := by
  cases a with
  | connect c =>
    simp only [step] at h
    split at h
    next can => cases h; exact .connect c can.1
    next => cases h
  | deliver c n =>
    simp only [step] at h
    split at h
    next delivered pc =>
      split at h
      next => cases h; exact .deliver c n delivered pc
      next => cases h
    next => cases h
  | sent c =>
    simp only [step] at h
    split at h
    next pc => cases h; exact .sent c pc
    next => cases h
  | recvReturns c fails =>
    simp only [step] at h
    split at h
    next can => cases h; exact .recvReturns c fails can.1
    next => cases h
  | clientCloses c =>
    simp only [step] at h
    split at h
    next pc => cases h; exact .clientCloses c pc
    next => cases h
  | daemon outcome => exact daemonStep_cases h
  | stopWrites =>
    simp only [step] at h
    split at h
    next => cases h; exact .stopWrites
    next => cases h
  | stopJoins =>
    simp only [step] at h
    split at h
    next => cases h; exact .stopJoins
    next => cases h

/-! ## What has arrived -/

/-- The bytes of client `c` that have arrived, by where it stands. -/
def deliveredBytes (outcomes : Nat → Option Nat) (c : Nat) : ClientPc → Nat
  | .idle => 0
  | .sending delivered => delivered
  | .waiting | .closing | .closed => sentBytes outcomes c

/-- Client `c` is connected, and of the bytes that have arrived all but `overallRead` are in
flight. -/
structure Unread (outcomes : Nat → Option Nat) (s : State) (c overallRead : Nat) : Prop where
  connected : (s.clients c).pc ≠ .idle
  count : overallRead + (s.clients c).inFlight = deliveredBytes outcomes c (s.clients c).pc

@[simp] theorem State.setClient_clients (s : State) (c d : Nat) (client : Client) :
    (s.setClient c client).clients d = if d = c then client else s.clients d :=
  Function.update_apply ..

/-- A step of one client that moves as many bytes as it delivers. -/
theorem Unread.setClient {c d overallRead : Nat} {client : Client}
    (u : Unread outcomes s d overallRead) (connected : client.pc ≠ .idle)
    (even : client.inFlight + deliveredBytes outcomes c (s.clients c).pc =
      (s.clients c).inFlight + deliveredBytes outcomes c client.pc) :
    Unread outcomes (s.setClient c client) d overallRead := by
  obtain ⟨connected', count⟩ := u
  constructor
  · rw [State.setClient_clients]
    split
    · exact connected
    · exact connected'
  · rw [State.setClient_clients]
    split
    next eq =>
      subst eq
      omega
    next => exact count

/-- A step that moves neither the client nor its bytes. -/
theorem Unread.congr {c overallRead : Nat} (u : Unread outcomes s c overallRead)
    (pc : (s'.clients c).pc = (s.clients c).pc)
    (inFlight : (s'.clients c).inFlight = (s.clients c).inFlight) :
    Unread outcomes s' c overallRead :=
  ⟨by rw [pc]; exact u.connected, by rw [pc, inFlight]; exact u.count⟩

/-- A change to a client that moves neither it nor its bytes moves none. -/
theorem setClient_same (c : Nat) (client : Client) (pc : client.pc = (s.clients c).pc)
    (inFlight : client.inFlight = (s.clients c).inFlight) (d : Nat) :
    ((s.setClient c client).clients d).pc = (s.clients d).pc ∧
      ((s.setClient c client).clients d).inFlight = (s.clients d).inFlight := by
  rw [State.setClient_clients]
  split
  next eq => subst eq; exact ⟨pc, inFlight⟩
  next => exact ⟨rfl, rfl⟩

/-- `close` on the daemon's end moves neither a client nor its bytes. -/
theorem closeSocket_same (s : State) (c d : Nat) :
    ((s.closeSocket c).clients d).pc = (s.clients d).pc ∧
      ((s.closeSocket c).clients d).inFlight = (s.clients d).inFlight :=
  setClient_same c { s.clients c with peerClosed := true } rfl rfl d

theorem closeListener_same (s : State) (d : Nat) :
    (s.closeListener.clients d).pc = (s.clients d).pc ∧
      (s.closeListener.clients d).inFlight = (s.clients d).inFlight := by
  simp only [State.closeListener]
  split
  · exact ⟨rfl, rfl⟩
  · exact ⟨rfl, rfl⟩

theorem reply_same (s : State) (c d : Nat) :
    ((s.setClient c { s.clients c with reply := true }).clients d).pc = (s.clients d).pc ∧
      ((s.setClient c { s.clients c with reply := true }).clients d).inFlight =
        (s.clients d).inFlight :=
  setClient_same c { s.clients c with reply := true } rfl rfl d

/-- Where a step does not connect and does not receive, it leaves what is unread. -/
theorem Step.unread (h : Step size outcomes s a s') {c overallRead : Nat}
    (u : Unread outcomes s c overallRead) (connects : a ≠ .connect c)
    (receives : ∀ n, a ≠ .daemon (.bytes n)) : Unread outcomes s' c overallRead := by
  cases h with
  | connect d idle =>
    have ne : c ≠ d := by
      rintro rfl
      exact connects rfl
    apply u.congr
    · simp only [State.setClient_clients, if_neg ne]
    · simp only [State.setClient_clients, if_neg ne]
  | deliver d n delivered pc =>
    refine u.setClient nofun ?_
    rw [pc]
    simp only [deliveredBytes]
    omega
  | sent d pc =>
    refine u.setClient nofun ?_
    rw [pc]
    rfl
  | recvReturns d fails pc =>
    refine u.setClient nofun ?_
    rw [pc]
    rfl
  | clientCloses d pc =>
    refine u.setClient nofun ?_
    rw [pc]
    rfl
  | leave outcome pc other =>
    obtain ⟨pc', inFlight⟩ := closeListener_same s c
    exact u.congr pc' inFlight
  | receive d overallRead' n pc gives => exact absurd rfl (receives n)
  | reply d pc =>
    obtain ⟨pc', inFlight⟩ := reply_same s d c
    exact u.congr pc' inFlight
  | hangUp d outcome other =>
    obtain ⟨pc', inFlight⟩ := closeSocket_same s d c
    exact u.congr pc' inFlight
  | _ => exact u.congr rfl rfl

theorem received_clients (s : State) (size c overallRead n d : Nat) :
    (s.received size c overallRead n).clients d =
      if d = c then { s.clients c with inFlight := (s.clients c).inFlight - n } else s.clients d :=
  State.setClient_clients ..

/-- The daemon receives `n` bytes of client `c`. -/
theorem received_unread {c overallRead n : Nat} (u : Unread outcomes s c overallRead)
    (gives : (s.clients c).Gives (size - overallRead) n) :
    Unread outcomes (s.received size c overallRead n) c (overallRead + n) := by
  have here : (s.received size c overallRead n).clients c =
      { s.clients c with inFlight := (s.clients c).inFlight - n } := by
    rw [received_clients, if_pos rfl]
  have count := u.count
  constructor
  · rw [here]
    exact u.connected
  · rw [here]
    change overallRead + n + ((s.clients c).inFlight - n) = deliveredBytes outcomes c (s.clients c).pc
    rcases gives with ⟨_, le, _⟩ | ⟨rfl, none, _⟩
    · omega
    · omega

/-- The bytes of the other clients stay where they are. -/
theorem received_other {c d overallRead overallRead' n : Nat} (u : Unread outcomes s d overallRead')
    (ne : d ≠ c) : Unread outcomes (s.received size c overallRead n) d overallRead' := by
  apply u.congr
  · rw [received_clients, if_neg ne]
  · rw [received_clients, if_neg ne]

/-- What a step does to the connections: nothing; one more waits; the first is served; the one that
is served has been read further; or it is let go, and perhaps those that wait too. -/
inductive Serves (size : Nat) (s : State) (a : Action) (s' : State) : Prop
  | same (backlog : s'.backlog = s.backlog) (serving : s'.daemon.serving = s.daemon.serving)
      (connects : ∀ c, a ≠ .connect c) (receives : ∀ n, a ≠ .daemon (.bytes n))
  | connect (c : Nat) (action : a = .connect c) (idle : (s.clients c).pc = .idle)
      (state : s' = { s.setClient c { s.clients c with pc := .sending 0 } with
        backlog := s.backlog ++ [c] })
  | accept (c : Nat) (backlog : s.backlog = c :: s'.backlog) (pc : s.daemon = .accept)
      (serving : s'.daemon.serving = some (c, 0)) (action : a = .daemon .succeeds)
      (clients : s'.clients = s.clients)
  | receive (c overallRead n : Nat) (pc : s.daemon = .recv c overallRead)
      (gives : (s.clients c).Gives (size - overallRead) n) (action : a = .daemon (.bytes n))
      (state : s' = s.received size c overallRead n)
  | free (backlog : s'.backlog = s.backlog ∨ s'.backlog = []) (serving : s'.daemon.serving = none)
      (connects : ∀ c, a ≠ .connect c) (receives : ∀ n, a ≠ .daemon (.bytes n))

theorem Step.serves (h : Step size outcomes s a s') : Serves size s a s' := by
  cases h with
  | connect c idle => exact .connect c rfl idle rfl
  | leave outcome pc other =>
    refine .free (.inr rfl) rfl nofun ?_
    intro n eq
    exact other n (Action.daemon.inj eq)
  | listen pc quiet => exact .same rfl (by rw [pc]; rfl) nofun nofun
  | accept c backlog pc head => exact .accept c head pc rfl rfl rfl
  | acceptFails pc => exact .same rfl (by rw [pc]; rfl) nofun nofun
  | selectRecv c overallRead pc ready => exact .same rfl (by rw [pc]; rfl) nofun nofun
  | receive c overallRead n pc gives => exact .receive c overallRead n pc gives rfl rfl
  | report c pc => exact .same rfl (by rw [pc]; rfl) nofun nofun
  | reply c pc => exact .same rfl (by rw [pc]; rfl) nofun nofun
  | replyFails c pc => exact .same rfl (by rw [pc]; rfl) nofun nofun
  | hangUp c outcome other =>
    refine .free (.inl rfl) rfl nofun ?_
    intro n eq
    exact other n (Action.daemon.inj eq)
  | _ => exact .same rfl rfl nofun nofun

/-- The bytes are accounted for, of the clients that wait and of the one that is served. -/
structure Counted (size : Nat) (outcomes : Nat → Option Nat) (s : State) : Prop where
  idle : ∀ c, (s.clients c).pc = .idle → (s.clients c).inFlight = 0
  backlog : ∀ c ∈ s.backlog, Unread outcomes s c 0
  nodup : s.backlog.Nodup
  serving : ∀ c overallRead, s.daemon.serving = some (c, overallRead) →
    overallRead < size ∧ c ∉ s.backlog ∧ Unread outcomes s c overallRead

theorem received_serving {c d overallRead overallRead' n : Nat}
    (serving : (s.received size c overallRead n).daemon.serving = some (d, overallRead')) :
    d = c ∧ overallRead' = overallRead + n ∧ overallRead + n < size := by
  simp only [State.received] at serving
  split at serving
  next more => cases serving; exact ⟨rfl, rfl, more⟩
  next => cases serving

/-- A client that has not connected has nothing in flight. -/
theorem Step.idle (h : Step size outcomes s a s')
    (none : ∀ c, (s.clients c).pc = .idle → (s.clients c).inFlight = 0) (c : Nat)
    (idle : (s'.clients c).pc = .idle) : (s'.clients c).inFlight = 0 := by
  cases h <;> grind [State.setClient_clients, closeSocket_same, closeListener_same, received_clients]

/-- A step that takes clients out of the backlog at most, and serves nobody new. -/
theorem Counted.keep (k : Counted size outcomes s) (h : Step size outcomes s a s')
    (backlog : s'.backlog.Sublist s.backlog)
    (serving : ∀ served, s'.daemon.serving = some served → s.daemon.serving = some served)
    (connects : ∀ c, a ≠ .connect c) (receives : ∀ n, a ≠ .daemon (.bytes n)) :
    Counted size outcomes s' := by
  refine ⟨h.idle k.idle, ?_, backlog.nodup k.nodup, ?_⟩
  · intro c mem
    exact h.unread (k.backlog c (backlog.subset mem)) (connects c) receives
  · intro c overallRead eq
    obtain ⟨lt, out, unread⟩ := k.serving c overallRead (serving _ eq)
    exact ⟨lt, fun mem => out (backlog.subset mem), h.unread unread (connects c) receives⟩

/-- A client that connects is the last one in the backlog. -/
theorem Counted.connect {c : Nat} (k : Counted size outcomes s) (h : Step size outcomes s a s')
    (action : a = .connect c) (unconnected : (s.clients c).pc = .idle)
    (here : Unread outcomes s' c 0) (backlog : s'.backlog = s.backlog ++ [c])
    (serving : s'.daemon = s.daemon) : Counted size outcomes s' := by
  have ne : ∀ d r, Unread outcomes s d r → d ≠ c := by
    rintro d r unread rfl
    exact unread.connected unconnected
  have other : ∀ d r, Unread outcomes s d r → Unread outcomes s' d r := by
    intro d r unread
    refine h.unread unread ?_ ?_
    · rw [action]
      intro eq
      exact ne d r unread (Action.connect.inj eq).symm
    · rw [action]
      nofun
  refine ⟨h.idle k.idle, ?_, ?_, ?_⟩
  · intro d mem
    rw [backlog, List.mem_append, List.mem_singleton] at mem
    rcases mem with mem | rfl
    · exact other d 0 (k.backlog d mem)
    · exact here
  · rw [backlog]
    apply List.nodup_append.mpr
    refine ⟨k.nodup, List.pairwise_singleton _ c, ?_⟩
    rintro d mem e mem' rfl
    exact ne d 0 (k.backlog d mem) (List.mem_singleton.mp mem')
  · intro d overallRead eq
    rw [serving] at eq
    obtain ⟨lt, out, unread⟩ := k.serving d overallRead eq
    refine ⟨lt, ?_, other d overallRead unread⟩
    rw [backlog, List.mem_append, List.mem_singleton]
    rintro (mem | eq)
    · exact out mem
    · exact ne d overallRead unread eq

theorem Counted.step (pos : 0 < size) (k : Counted size outcomes s)
    (h : Step size outcomes s a s') : Counted size outcomes s' := by
  cases h.serves with
  | same backlog' serving' connects receives =>
    refine k.keep h ?_ ?_ connects receives
    · rw [backlog']
    · rw [serving']
      exact fun _ => id
  | connect c action unconnected state =>
    refine k.connect h action unconnected ?_ (by rw [state]) (by rw [state]; rfl)
    subst state
    constructor
    · simp
    · simp [deliveredBytes, k.idle c unconnected]
  | accept c backlog' pc serving' action clients =>
    have waiting := k.backlog
    have nodup := k.nodup
    rw [backlog'] at waiting nodup
    have same : ∀ d r, Unread outcomes s d r → Unread outcomes s' d r := by
      intro d r unread
      exact unread.congr (by rw [clients]) (by rw [clients])
    refine ⟨h.idle k.idle, ?_, (List.nodup_cons.mp nodup).2, ?_⟩
    · intro d mem
      exact same d 0 (waiting d (List.mem_cons_of_mem _ mem))
    · intro d overallRead eq
      rw [serving'] at eq
      cases eq
      exact ⟨pos, (List.nodup_cons.mp nodup).1, same c 0 (waiting c List.mem_cons_self)⟩
  | receive c overallRead n pc gives action state =>
    obtain ⟨lt, out, unread⟩ := k.serving c overallRead (by rw [pc]; rfl)
    subst state
    refine ⟨h.idle k.idle, ?_, k.nodup, ?_⟩
    · intro d mem
      refine received_other (k.backlog d mem) ?_
      rintro rfl
      exact out mem
    · intro d overallRead' eq
      obtain ⟨rfl, rfl, more⟩ := received_serving eq
      exact ⟨more, out, received_unread unread gives⟩
  | free backlog' serving' connects receives =>
    refine k.keep h ?_ ?_ connects receives
    · rcases backlog' with same | none
      · rw [same]
      · rw [none]
        exact List.nil_sublist _
    · rw [serving']
      intro served eq
      cases eq

theorem counted_new : Counted size outcomes {} := by
  refine ⟨fun _ _ => rfl, ?_, List.Pairwise.nil, ?_⟩
  · intro c mem
    cases mem
  · intro c overallRead eq
    cases eq

theorem counted_of_run (pos : 0 < size) {actions : List Action}
    (ran : run (step size outcomes) {} actions = some s) : Counted size outcomes s :=
  run_keeps (Counted size outcomes) (fun _ _ _ k h => k.step pos (step_cases h)) counted_new ran

/-! ## The client and the daemon wait for each other -/

/-- Client `c` waits for the reply in `recv`, the daemon waits in `select` for more of its message,
and nothing is in flight either way. -/
structure Hang (c : Nat) (s : State) : Prop where
  client : (s.clients c).pc = .waiting
  daemon : ∃ overallRead, s.daemon = .recvSelect c overallRead
  blocked : s.Blocked
  bytes : (s.clients c).inFlight = 0
  reply : (s.clients c).reply = false

/-- A client whose message was sent whole does not hang. -/
theorem not_hang_of_whole (pos : 0 < size) {c : Nat} (whole : outcomes c = some size)
    {actions : List Action} (ran : run (step size outcomes) {} actions = some s) : ¬ Hang c s := by
  rintro ⟨client, ⟨overallRead, daemon⟩, -, bytes, -⟩
  obtain ⟨lt, -, unread⟩ := (counted_of_run pos ran).serving c overallRead (by rw [daemon]; rfl)
  have count := unread.count
  rw [client, bytes, deliveredBytes, sentBytes, whole, Option.getD_some] at count
  omega

/-- The client connects, sends what its `send` sends, and the daemon reads all of it. -/
def exchange (c k : Nat) : List Action :=
  if k = 0 then [.connect c, .sent c, .daemon .succeeds, .daemon .succeeds]
  else [.connect c, .deliver c k, .sent c, .daemon .succeeds, .daemon .succeeds, .daemon .succeeds,
    .daemon (.bytes k)]

theorem hang_of_short {c : Nat} (short : sentBytes outcomes c < size) :
    ∃ s, run (step size outcomes) {} (exchange c (sentBytes outcomes c)) = some s ∧ Hang c s := by
  by_cases zero : sentBytes outcomes c = 0
  · refine ⟨{ clients := Function.update (fun _ => {}) c { pc := .waiting }
              daemon := .recvSelect c 0 }, ?_, ?_⟩
    · simp [exchange, zero, run, step, daemonStep, State.selected, DaemonPc.flag, State.ready,
        State.setClient]
    · refine ⟨?_, ⟨0, rfl⟩, ⟨?_, ?_⟩, ?_, ?_⟩ <;>
        simp [State.selected, DaemonPc.flag, State.ready]
  · refine ⟨{ clients := Function.update (fun _ => {}) c { pc := .waiting }
              daemon := .recvSelect c (sentBytes outcomes c) }, ?_, ?_⟩
    · simp [exchange, zero, run, step, daemonStep, State.selected, DaemonPc.flag, State.ready,
        State.setClient, Client.Gives, State.received, short, Nat.pos_of_ne_zero zero]
      omega
    · refine ⟨?_, ⟨_, rfl⟩, ⟨?_, ?_⟩, ?_, ?_⟩ <;>
        simp [State.selected, DaemonPc.flag, State.ready]

/-- **The handshake hangs exactly where the message is not sent whole.** For every message size and
whatever the `send` of each client returns, an error or a number of bytes up to the size: no run, with
any number of clients and any pieces of `recv`, reaches a state in which client `c` and the daemon
wait for each other, if and only if the `send` of client `c` sent the whole message. -/
theorem no_hang_iff_sent_whole (size : Nat) (pos : 0 < size) (outcomes : Nat → Option Nat)
    (bounded : ∀ c k, outcomes c = some k → k ≤ size) (c : Nat) :
    (∀ actions s, run (step size outcomes) {} actions = some s → ¬ Hang c s) ↔
      outcomes c = some size := by
  constructor
  · intro never
    by_contra short
    have less : sentBytes outcomes c < size := by
      rw [sentBytes]
      cases sent : outcomes c with
      | none => exact pos
      | some k =>
        have le := bounded c k sent
        have ne : k ≠ size := by
          rintro rfl
          exact short sent
        rw [Option.getD_some]
        omega
    obtain ⟨s, ran, hang⟩ := hang_of_short less
    exact never _ s ran hang
  · intro whole actions s ran
    exact not_hang_of_whole pos whole ran

/-- Messages of eight bytes, all sent whole. -/
theorem no_hang_eight : 0 < 8 ∧ ∀ actions s,
    run (step 8 fun _ => some 8) {} actions = some s → ¬ Hang 0 s := by
  refine ⟨by simp, (no_hang_iff_sent_whole 8 (by simp) (fun _ => some 8) ?_ 0).mpr rfl⟩
  intro c k sent
  cases sent
  exact Nat.le_refl 8

/-- A `send` that fails: the client waits for the reply, and the daemon for the message. -/
theorem failed_send_hangs :
    ∃ actions s, run (step 8 fun _ => none) {} actions = some s ∧ Hang 0 s := by
  have short : sentBytes (fun _ => none) 0 < 8 := by decide
  obtain ⟨s, ran, hang⟩ := hang_of_short short
  exact ⟨_, s, ran, hang⟩

/-! ## The daemon does not hear the pipe -/

/-- The step does not leave the daemon deaf: when the pipe is written, the client that is served has
sent its whole message, and so has a client that is accepted after that. -/
def SentWhole (size : Nat) (s : State) : Action → Prop
  | .stopWrites => ∀ p ∈ s.daemon.serving, size ≤ p.2 + (s.clients p.1).inFlight
  | .daemon .succeeds => s.daemon = .accept → s.pipe = true →
      ∀ c ∈ s.backlog.head?, size ≤ (s.clients c).inFlight
  | _ => True

instance (size : Nat) (s : State) : (a : Action) → Decidable (SentWhole size s a)
  | .stopWrites => inferInstanceAs
      (Decidable (∀ p ∈ s.daemon.serving, size ≤ p.2 + (s.clients p.1).inFlight))
  | .daemon .succeeds => inferInstanceAs (Decidable (s.daemon = .accept → s.pipe = true →
      ∀ c ∈ s.backlog.head?, size ≤ (s.clients c).inFlight))
  | .daemon .fails | .daemon (.bytes _) | .connect _ | .deliver _ _ | .sent _ | .recvReturns _ _
  | .clientCloses _ | .stopJoins => isTrue trivial

/-- The receive loop is not done, and once the pipe is written what is missing is in flight. -/
structure Complete (size : Nat) (s : State) : Prop where
  more : ∀ c overallRead, s.daemon.serving = some (c, overallRead) → overallRead < size
  whole : s.pipe = true → ∀ c overallRead, s.daemon.serving = some (c, overallRead) →
    size ≤ overallRead + (s.clients c).inFlight

theorem setClient_inFlight_le {d : Nat} {client : Client}
    (le : (s.clients d).inFlight ≤ client.inFlight) (c : Nat) :
    (s.clients c).inFlight ≤ ((s.setClient d client).clients c).inFlight := by
  rw [State.setClient_clients]
  split
  next eq => subst eq; exact le
  next => exact Nat.le_refl _

/-- Only the daemon takes bytes off the wire. -/
theorem Step.inFlight_le (h : Step size outcomes s a s') (receives : ∀ n, a ≠ .daemon (.bytes n))
    (c : Nat) : (s.clients c).inFlight ≤ (s'.clients c).inFlight := by
  cases h with
  | receive d overallRead n pc gives => exact absurd rfl (receives n)
  | leave outcome pc other => exact Nat.le_of_eq (closeListener_same s c).2.symm
  | reply d pc => exact Nat.le_of_eq (reply_same s d c).2.symm
  | hangUp d outcome other => exact Nat.le_of_eq (closeSocket_same s d c).2.symm
  | connect d idle =>
    change _ ≤ ((s.setClient d _).clients c).inFlight
    apply setClient_inFlight_le
    exact Nat.le_refl _
  | deliver d n delivered pc => exact setClient_inFlight_le (Nat.le_add_right _ _) c
  | sent d pc =>
    apply setClient_inFlight_le
    exact Nat.le_refl _
  | recvReturns d fails pc =>
    apply setClient_inFlight_le
    exact Nat.le_refl _
  | clientCloses d pc =>
    apply setClient_inFlight_le
    exact Nat.le_refl _
  | _ => exact Nat.le_refl _

/-- Only `StopDaemon` writes to the pipe. -/
theorem Step.pipe (h : Step size outcomes s a s') (written : s'.pipe = true) :
    s.pipe = true ∨ a = .stopWrites := by
  cases h with
  | stopWrites => exact .inr rfl
  | _ => exact .inl written

/-- A step that receives nothing and serves nobody new. -/
theorem Complete.keep (k : Complete size s) (sent : SentWhole size s a)
    (h : Step size outcomes s a s')
    (serving : ∀ served, s'.daemon.serving = some served → s.daemon.serving = some served)
    (receives : ∀ n, a ≠ .daemon (.bytes n)) : Complete size s' := by
  refine ⟨fun c overallRead eq => k.more c overallRead (serving _ eq), ?_⟩
  intro written c overallRead eq
  have le := h.inFlight_le receives c
  rcases h.pipe written with before | rfl
  · have := k.whole before c overallRead (serving _ eq)
    omega
  · have : size ≤ overallRead + (s.clients c).inFlight := sent (c, overallRead) (serving _ eq)
    omega

theorem Complete.step (pos : 0 < size) (k : Complete size s) (sent : SentWhole size s a)
    (h : Step size outcomes s a s') : Complete size s' := by
  cases h.serves with
  | same backlog serving connects receives =>
    refine k.keep sent h ?_ receives
    rw [serving]
    exact fun _ => id
  | connect c action idle state =>
    refine k.keep sent h ?_ ?_
    · rw [state]
      exact fun _ => id
    · rw [action]
      nofun
  | accept c backlog pc serving action clients =>
    refine ⟨?_, ?_⟩
    · intro d overallRead eq
      rw [serving] at eq
      cases eq
      exact pos
    · intro written d overallRead eq
      rw [serving] at eq
      cases eq
      rw [clients, Nat.zero_add]
      subst action
      have before : s.pipe = true := by
        rcases h.pipe written with before | eq
        · exact before
        · cases eq
      exact sent pc before c (by rw [backlog]; rfl)
  | receive c overallRead n pc gives action state =>
    have serving : s.daemon.serving = some (c, overallRead) := by
      rw [pc]
      rfl
    have pipe : s'.pipe = s.pipe := by
      rw [state]
      rfl
    constructor
    · intro d overallRead' eq
      rw [state] at eq
      obtain ⟨rfl, rfl, less⟩ := received_serving eq
      exact less
    · intro written d overallRead' eq
      rw [state] at eq
      obtain ⟨rfl, rfl, less⟩ := received_serving eq
      have := k.whole (pipe ▸ written) d overallRead serving
      rw [state, received_clients, if_pos rfl]
      change size ≤ overallRead + n + ((s.clients d).inFlight - n)
      omega
  | free backlog serving connects receives =>
    refine k.keep sent h ?_ receives
    rw [serving]
    intro served eq
    cases eq

theorem complete_new (size : Nat) : Complete size {} := by
  constructor
  · intro c overallRead eq
    cases eq
  · intro _ c overallRead eq
    cases eq

/-- **The stop request is heard.** In every run in which the client that is served when the pipe is
written, and every client that is accepted after that, has sent its whole message: in every state
that is reached, the daemon is not blocked in a `select` while there is a byte in the pipe. -/
theorem stop_heard (size : Nat) (pos : 0 < size) (outcomes : Nat → Option Nat)
    (actions : List Action) (s : State) (ran : run (step size outcomes) {} actions = some s)
    (meets : Meets (step size outcomes) (SentWhole size) {} actions) :
    ¬ (s.pipe = true ∧ s.Blocked) := by
  have complete : Complete size s := run_keeps_of_meets (Complete size)
    (fun _ _ _ k sent h => k.step pos sent (step_cases h)) (complete_new size) meets ran
  rintro ⟨written, waits, blocked⟩
  have none : ∀ fd ∈ s.daemon.flag, s.ready fd = false := by
    intro fd mem
    by_contra ready
    rw [Bool.not_eq_false] at ready
    have : fd ∈ s.selected := mem_selected.mpr ⟨mem, ready⟩
    rw [blocked] at this
    cases this
  cases pc : s.daemon with
  | acceptSelect =>
    have := none .interrupter (by rw [pc]; exact List.mem_cons_of_mem _ List.mem_cons_self)
    rw [State.ready, written] at this
    cases this
  | recvSelect c overallRead =>
    have ready := none (.socket c) (by rw [pc]; exact List.mem_cons_self)
    have serving : s.daemon.serving = some (c, overallRead) := by
      rw [pc]
      rfl
    have less := complete.more c overallRead serving
    have whole := complete.whole written c overallRead serving
    have arrived : 0 < (s.clients c).inFlight := by omega
    simp [State.ready, arrived] at ready
  | _ => rw [pc] at waits; exact waits rfl

/-- The message of eight bytes is sent whole, and the pipe is written while it is received. -/
def wholeMessage : List Action :=
  [.connect 0, .deliver 0 8, .sent 0, .daemon .succeeds, .daemon .succeeds, .daemon .succeeds,
    .daemon (.bytes 3), .stopWrites]

/-- The daemon has read three bytes, there is a byte in the pipe, and the daemon is not blocked. -/
theorem stop_heard_whole_message :
    ∃ s, run (step 8 fun _ => some 8) {} wholeMessage = some s ∧ s.daemon = .recvSelect 0 3 ∧
      s.pipe = true ∧ ¬ (s.pipe = true ∧ s.Blocked) := by
  obtain ⟨s, ran, facts⟩ := Option.map_eq_some_iff.mp (show
    (run (step 8 fun _ => some 8) {} wholeMessage).map (fun s => (s.daemon, s.pipe)) =
      some (.recvSelect 0 3, true) by decide +kernel)
  obtain ⟨daemon, pipe⟩ := Prod.mk.inj facts
  exact ⟨s, ran, daemon, pipe,
    stop_heard 8 (by simp) _ wholeMessage s ran (by decide +kernel)⟩

/-- Three of the eight bytes have arrived and were read when the pipe is written: the daemon waits for
the rest, and does not hear the pipe. -/
theorem stop_not_heard :
    ∃ s, run (step 8 fun _ => some 8) {} [.connect 0, .deliver 0 3, .daemon .succeeds,
        .daemon .succeeds, .daemon .succeeds, .daemon (.bytes 3), .stopWrites] = some s ∧
      s.stop = .join ∧ s.pipe = true ∧ s.Blocked ∧ Fd.interrupter ∉ s.daemon.flag := by
  obtain ⟨s, ran, facts⟩ := Option.map_eq_some_iff.mp (show
    (run (step 8 fun _ => some 8) {} [.connect 0, .deliver 0 3, .daemon .succeeds,
      .daemon .succeeds, .daemon .succeeds, .daemon (.bytes 3), .stopWrites]).map
        (fun s => (s.stop, s.pipe, decide s.Blocked, decide (Fd.interrupter ∉ s.daemon.flag))) =
      some (.join, true, true, true) by decide +kernel)
  simp only [Prod.mk.injEq, decide_eq_true_eq] at facts
  exact ⟨s, ran, facts⟩

end Dolin.Hawkeye.Handshake
