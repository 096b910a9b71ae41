import ShareCompute.App.SessionShutdown
import Mathlib.Data.Finset.Card

namespace ShareCompute.App

open ShareCompute.Library
open ShareCompute.Library.Tracked (Stage Kept)

/-!
# The threads of a session come to their ends

A thread that waits for somebody else is woken when its socket is closed.  So once an end has begun
the session needs nobody else: whoever has the monitor can finish `halt`, and then every thread has
a step of its own until it is over.

* `own` — the steps that wait for nobody.
* `work` — how many steps the threads have left, once the pool is shut down.
* `session_winds_down` — with their own steps they come to their ends, and there is no other way for
  them to go on.
-/

namespace WorkerSession

variable {s s' : WorkerSession}

/-! ### Waiting -/

/-- The socket at which a connection attempt waits for the other side. -/
def Connect.waits : Connect → Option Socket
  | .handshaking => some .tls
  | _ => none

/-- The socket on which somebody else has to act, or that has to be open. -/
def Control.waits : Control → Option Socket
  | .connect at' => at'.waits
  | .greeting => some .tls
  | .joining => some .tls
  | .reading => some .tls
  | _ => none

/-- The socket at which a tunnel waits for the other side, if it does. -/
def Tunnel.waits : Tunnel → Option Socket
  | .connect at' => at'.waits
  | .greeting => some .tls
  | .connecting => some .loopback
  | .relaying => some .tls
  | _ => none

/-- The socket at which the second thread of a tunnel waits: it reads from the loopback
    connection. -/
def Pump.waits : Pump → Option Socket
  | .copying => some .loopback
  | _ => none

/-- Nobody else has a part in the step: what a thread waits on is closed, and it throws. -/
def own (self : WorkerSession) : Event → Prop
  | .control succeeds => ∀ socket, self.control.waits = some socket →
      succeeds = false ∧ self.wires.isOpen (.control, socket) = false
  | .tunnel t succeeds => ∀ (channel : Channel) socket, self.channels[t]? = some channel →
      channel.tunnel.waits = some socket →
        succeeds = false ∧ self.wires.isOpen (.tunnel t, socket) = false
  | .pump t => ∀ (channel : Channel) socket, self.channels[t]? = some channel →
      channel.pump.waits = some socket → self.wires.isOpen (.tunnel t, socket) = false
  | .enter (.thread _) => True
  | .enter .heartbeat => False
  | .enter .stop => False
  | _ => True

/-! ### A thread's own steps -/

/-- The stage of a socket lets the access be made. -/
def Access.Possible (stage : Socket → Stage) : Access → Prop
  | .io _ => False
  | .create socket => stage socket = .absent
  | .register socket => stage socket = .created
  | .check socket => stage socket = .registering
  | .discard socket => stage socket = .refused
  | .release socket => stage socket = .held
  | _ => True

/-- An access that is possible can be performed, whatever the other threads have done. -/
theorem Access.Possible.perform {thread : Thread} {wires : Tracked.State Wire} {access : Access}
    (h : access.Possible fun socket => wires.stage (thread, socket)) :
    ∃ wires', access.perform thread wires = some wires' := by
  cases access with
  | nothing => exact ⟨_, rfl⟩
  | io => exact h.elim
  | create | register | check | discard | release => exact ⟨_, if_pos h⟩
  | close =>
    simp only [Access.perform]
    split
    case isTrue hheld => exact ⟨_, if_pos hheld⟩
    case isFalse => exact ⟨_, rfl⟩
  | drop =>
    simp only [Access.perform]
    split
    case isTrue hheld => exact ⟨_, if_pos hheld⟩
    case isFalse => exact ⟨_, rfl⟩

/-- A connection attempt has a next step of its own; where it waits for the other side, the step is
    to fail. -/
theorem Connect.next_own {P : Type} (inside : Connect → P) (returns throws : P) (closed : Bool)
    {at' : Connect} {stage : Socket → Stage} (hgrip : at'.grip (stage .tls) = true) :
    ∃ succeeds move, Connect.next inside returns throws closed at' succeeds = some move ∧
      move.access.Possible stage ∧ ∀ socket, at'.waits = some socket → succeeds = false := by
  cases at' with
  | starting =>
    have hstage : stage .tls = .absent := of_decide_eq_true hgrip
    exact ⟨true, _, rfl, hstage, nofun⟩
  | created =>
    have hstage : stage .tls = .created := of_decide_eq_true hgrip
    exact ⟨true, _, rfl, hstage, nofun⟩
  | registered =>
    have hstage : stage .tls = .registering := of_decide_eq_true hgrip
    exact ⟨true, _, rfl, hstage, nofun⟩
  | refused =>
    have hstage : stage .tls = .refused := of_decide_eq_true hgrip
    exact ⟨true, _, rfl, hstage, nofun⟩
  | handshaking =>
    have hstage : stage .tls = .held := of_decide_eq_true hgrip
    exact ⟨false, _, rfl, hstage, fun _ _ => rfl⟩

/-- The control thread, once it runs and until it fails, has a next step; where it waits, the step
    is to fail. -/
theorem Control.next_own (view : View) {control : Control} (stage : Socket → Stage)
    (hgrip : control.grip .tls (stage .tls) = true) (hidle : control ≠ .idle)
    (hfailing : control ≠ .failing) (hover : control ≠ .finished) :
    ∃ succeeds move, control.next view succeeds = some move ∧
      move.access.Possible stage ∧ ∀ socket, control.waits = some socket → succeeds = false := by
  cases control with
  | idle => exact absurd rfl hidle
  | failing => exact absurd rfl hfailing
  | finished => exact absurd rfl hover
  | connect at' => exact Connect.next_own _ _ _ _ hgrip
  | greeting | joining | reading => exact ⟨false, _, rfl, trivial, fun _ _ => rfl⟩
  | looping => exact ⟨true, _, rfl, trivial, nofun⟩
  | admitting =>
    refine ⟨true, ?_⟩
    simp only [Control.next]
    split <;> exact ⟨_, rfl, trivial, nofun⟩

/-- A tunnel that has neither failed nor finished has a next step; where it waits, the step is to
    fail. -/
theorem Tunnel.next_own (view : View) {tunnel : Tunnel} {stage : Socket → Stage}
    (hgrip : ∀ socket, tunnel.grip socket (stage socket) = true)
    (hfailing : tunnel ≠ .failing) (hover : tunnel ≠ .finished) :
    ∃ succeeds move, tunnel.next view succeeds = some move ∧
      move.access.Possible stage ∧ ∀ socket, tunnel.waits = some socket → succeeds = false := by
  cases tunnel with
  | failing => exact absurd rfl hfailing
  | finished => exact absurd rfl hover
  | connect at' => exact Connect.next_own _ _ _ _ (hgrip .tls)
  | greeting | connecting | relaying => exact ⟨false, _, rfl, trivial, fun _ _ => rfl⟩
  | dialing =>
    have hstage : stage .loopback = .absent := of_decide_eq_true (hgrip .loopback)
    exact ⟨true, _, rfl, hstage, nofun⟩
  | dialCreated =>
    have hstage : stage .loopback = .created := of_decide_eq_true (hgrip .loopback)
    exact ⟨true, _, rfl, hstage, nofun⟩
  | dialRegistered =>
    have hstage : stage .loopback = .registering := of_decide_eq_true (hgrip .loopback)
    exact ⟨true, _, rfl, hstage, nofun⟩
  | dialRefused =>
    have hstage : stage .loopback = .refused := of_decide_eq_true (hgrip .loopback)
    exact ⟨true, _, rfl, hstage, nofun⟩
  | launching =>
    refine ⟨true, ?_⟩
    simp only [Tunnel.next]
    split <;> exact ⟨_, rfl, trivial, nofun⟩
  | closing | caught | leaving | leavingRemote | returning => exact ⟨true, _, rfl, trivial, nofun⟩

/-! ### The steps that are left -/

/-- How many steps a connection attempt has left at most. -/
def Connect.work : Connect → ℕ
  | .starting => 4
  | .created => 3
  | .registered => 2
  | .refused => 1
  | .handshaking => 1

/-- How many steps the control thread has left at most, once the pool is down. -/
def Control.work : Control → ℕ
  | .idle => 11
  | .connect at' => 6 + at'.work
  | .greeting => 6
  | .joining => 5
  | .reading => 4
  | .admitting => 3
  | .looping => 2
  | .failing => 1
  | .finished => 0

/-- How many steps a tunnel has left at most, with the steps of the thread that it may still
    start. -/
def Tunnel.work : Tunnel → ℕ
  | .connect at' => 13 + at'.work
  | .greeting => 13
  | .dialing => 12
  | .dialCreated => 11
  | .dialRegistered => 10
  | .dialRefused => 9
  | .connecting => 9
  | .launching => 8
  | .relaying => 7
  | .closing _ => 6
  | .caught => 5
  | .failing => 4
  | .leaving => 3
  | .leavingRemote => 2
  | .returning => 1
  | .finished => 0

/-- How many steps the second thread of a tunnel has left. -/
def Pump.work : Pump → ℕ
  | .copying => 2
  | .closing => 1
  | _ => 0

/-- What the two threads of a tunnel have left together. -/
def Channel.work (channel : Channel) : ℕ := channel.tunnel.work + channel.pump.work

/-- What all threads of the session have left together. -/
def work (self : WorkerSession) : ℕ :=
  self.control.work + (self.channels.map Channel.work).sum

/-- A step of a connection attempt leaves it less to do, or ends it one way or the other. -/
theorem Connect.next_work {P : Type} {inside : Connect → P} {returns throws : P} {closed : Bool}
    {at' : Connect} {succeeds : Bool} {move : Move P}
    (h : Connect.next inside returns throws closed at' succeeds = some move) :
    0 < at'.work ∧ ((∃ at'', move.next = inside at'' ∧ at''.work < at'.work) ∨
      move.next = returns ∨ move.next = throws) := by
  unfold Connect.next at h
  split at h
  case h_4 =>
    obtain rfl := Option.some.inj h
    exact ⟨by decide, .inl ⟨_, rfl, by split <;> decide⟩⟩
  case h_1 | h_3 =>
    obtain rfl := Option.some.inj h
    exact ⟨by decide, .inl ⟨_, rfl, by decide⟩⟩
  case h_2 | h_5 | h_7 =>
    obtain rfl := Option.some.inj h
    exact ⟨by decide, .inr (.inr rfl)⟩
  case h_6 =>
    obtain rfl := Option.some.inj h
    exact ⟨by decide, .inr (.inl rfl)⟩
  case h_8 => cases h

/-- Once the flag is set the control thread does not come back to its loop. -/
theorem Control.next_work {view : View} {control : Control} {succeeds : Bool}
    {move : Move Control} (h : control.next view succeeds = some move)
    (hclosed : view.closed = true) (hdown : view.poolUp = false) :
    move.next.work < control.work ∧ move.books ≠ .spawn := by
  unfold Control.next at h
  split at h
  case h_2 at' =>
    obtain ⟨hbooks, -⟩ := Connect.next_grip h
    obtain ⟨hpositive, ⟨at'', hnext, hless⟩ | hnext | hnext⟩ := Connect.next_work h
    all_goals
      rw [hnext, hbooks]
      refine ⟨?_, nofun⟩
      simp only [Control.work]
      omega
  all_goals (try split at h) <;>
    first
    | cases h; done
    | (obtain rfl := Option.some.inj h
       simp_all [Control.work])

/-- A step of a tunnel leaves it less to do once the pool is down, since then it starts no second
    thread. -/
theorem Tunnel.next_work {view : View} {tunnel : Tunnel} {succeeds : Bool}
    {move : Move Tunnel} (h : tunnel.next view succeeds = some move)
    (hdown : view.poolUp = false) :
    move.next.work < tunnel.work ∧ move.books ≠ .pump := by
  unfold Tunnel.next at h
  split at h
  case h_1 at' =>
    obtain ⟨hbooks, -⟩ := Connect.next_grip h
    obtain ⟨hpositive, ⟨at'', hnext, hless⟩ | hnext | hnext⟩ := Connect.next_work h
    all_goals
      rw [hnext, hbooks]
      refine ⟨?_, nofun⟩
      simp only [Tunnel.work]
      omega
  all_goals (try split at h) <;>
    first
    | cases h; done
    | (obtain rfl := Option.some.inj h
       simp_all [Tunnel.work])

/-- It is a step of a thread. -/
def Event.ofThread : Event → Bool
  | .control _ => true
  | .tunnel _ _ => true
  | .pump _ => true
  | .enter (.thread _) => true
  | _ => false

/-- A note in the books is no work, unless it starts a tunnel. -/
theorem book_work (s : WorkerSession) {books : Books} (h : books ≠ .spawn) :
    (s.book books).work = s.work := by
  cases books with
  | spawn => exact absurd rfl h
  | _ => rfl

/-- A caller that goes on has less left. -/
theorem resume_work {caller : Caller} (hcalls : s.calls caller = true) :
    (s.resume caller).work ≤ s.work ∧
      (∀ thread, caller = .thread thread → (s.resume caller).work < s.work) := by
  cases caller with
  | heartbeat => exact ⟨le_refl _, nofun⟩
  | stop => exact ⟨le_refl _, nofun⟩
  | thread thread =>
    have hless : (s.resume (.thread thread)).work < s.work := by
      cases thread with
      | control =>
        have hfailing : s.control = .failing := of_decide_eq_true hcalls
        show 0 + (s.channels.map Channel.work).sum
          < s.control.work + (s.channels.map Channel.work).sum
        rw [hfailing]
        exact Nat.add_lt_add_right Nat.zero_lt_one _
      | tunnel t =>
        obtain ⟨channel, hchannel, hfailing⟩ :=
          Option.map_eq_some_iff.mp (of_decide_eq_true hcalls)
        have hset := sum_map_set Channel.work (b := { channel with tunnel := .leaving }) hchannel
        have hbefore : channel.work = 4 + channel.pump.work := by
          rw [Channel.work, hfailing]
          rfl
        have hafter : Channel.work { channel with tunnel := .leaving } = 3 + channel.pump.work :=
          rfl
        simp only [WorkerSession.resume, hchannel, work]
        omega
    exact ⟨hless.le, fun _ _ => hless⟩

/-- **Once the pool is shut down** nothing is started, and each step of a thread is one less. -/
theorem work_step (h : Sound s) {event : Event} (hs : s.step event = some s')
    (hdown : s.poolUp = false) :
    s'.poolUp = false ∧ s'.work + (if event.ofThread then 1 else 0) ≤ s.work := by
  have hclosed : s.wires.closed = true := h.closed (h.ends.poolDown hdown)
  -- a step of the pass over the wires leaves the threads and the executor as they are
  have hsweep : ∀ {swept : Tracked.Event Wire}, s.sweep swept = some s' →
      s'.poolUp = false ∧ s'.work ≤ s.work := by
    intro swept hs
    unfold WorkerSession.sweep at hs
    split at hs
    case h_2 => cases hs
    case h_1 =>
      obtain ⟨wires, -, rfl⟩ := Option.map_eq_some_iff.mp hs
      exact ⟨hdown, le_refl _⟩
  cases event with
  | control succeeds =>
    simp only [WorkerSession.step, WorkerSession.runControl] at hs
    split at hs
    case h_1 => cases hs
    case h_2 move hmove =>
      split at hs
      case h_1 => cases hs
      case h_2 wires hperform =>
        obtain rfl := Option.some.inj hs
        -- a session that is closed starts no further tunnel
        obtain ⟨hless, hspawn⟩ := Control.next_work hmove hclosed hdown
        rw [book_poolUp, book_work _ hspawn]
        refine ⟨hdown, ?_⟩
        show move.next.work + (s.channels.map Channel.work).sum + 1
          ≤ s.control.work + (s.channels.map Channel.work).sum
        omega
  | tunnel t succeeds =>
    simp only [WorkerSession.step, WorkerSession.runTunnel] at hs
    split at hs
    case h_1 => cases hs
    case h_2 channel hchannel =>
      split at hs
      case h_1 => cases hs
      case h_2 move hmove =>
        split at hs
        case h_1 => cases hs
        case h_2 wires hperform =>
          obtain rfl := Option.some.inj hs
          -- once the executor is down, it cannot start its second copy
          obtain ⟨hless, hpump⟩ := Tunnel.next_work hmove hdown
          obtain ⟨-, hbooks⟩ := Tunnel.next_books hmove
          have hspawn : move.books ≠ .spawn := by
            rintro heq
            rw [heq] at hbooks
            simp at hbooks
          rw [book_poolUp, book_work _ hspawn]
          refine ⟨hdown, ?_⟩
          have hset := sum_map_set Channel.work (b := ⟨move.next, channel.pump⟩) hchannel
          have hafter : Channel.work ⟨move.next, channel.pump⟩ =
            move.next.work + channel.pump.work := rfl
          have hbefore : channel.work = channel.tunnel.work + channel.pump.work := rfl
          simp only [work, if_neg hpump, Event.ofThread, if_true]
          omega
  | pump t =>
    simp only [WorkerSession.step, WorkerSession.runPump] at hs
    split at hs
    case h_1 => cases hs
    case h_2 channel hchannel =>
      split at hs
      case h_1 => cases hs
      case h_2 access pump hnext =>
        split at hs
        case h_1 => cases hs
        case h_2 wires hperform =>
          obtain rfl := Option.some.inj hs
          refine ⟨hdown, ?_⟩
          -- from `copying` to `closing`, and from there to `finished`
          have hless : pump.work < channel.pump.work := by
            cases hbefore : channel.pump with
            | copying | closing =>
              rw [hbefore] at hnext
              obtain ⟨-, rfl⟩ := Prod.mk.inj (Option.some.inj hnext)
              decide
            | idle | finished =>
              rw [hbefore] at hnext
              cases hnext
          have hset := sum_map_set Channel.work (b := { channel with pump := pump }) hchannel
          have hafter : Channel.work { channel with pump := pump } =
            channel.tunnel.work + pump.work := rfl
          have hbefore : channel.work = channel.tunnel.work + channel.pump.work := rfl
          simp only [work, Event.ofThread, if_true]
          omega
  | enter caller =>
    simp only [WorkerSession.step, WorkerSession.enter] at hs
    split at hs
    case h_1 => cases hs
    case h_2 =>
      split at hs
      case isFalse => cases hs
      case isTrue hcalls =>
        split at hs
        case isTrue hstop =>
          -- `stop` takes the monitor, and no thread has moved
          obtain rfl := Option.some.inj hs
          rw [hstop]
          exact ⟨hdown, le_refl _⟩
        case isFalse =>
          -- any other caller finds the session closed and returns at once
          obtain rfl := Option.some.inj hs
          obtain ⟨hle, hless⟩ := resume_work hcalls
          refine ⟨(resume_poolUp ..).trans hdown, ?_⟩
          cases caller with
          | thread thread => exact hless thread rfl
          | _ => exact hle
  | flag => exact hsweep hs
  | begin => exact hsweep hs
  | visit wire => exact hsweep hs
  | finish => exact hsweep hs
  | clear =>
    simp only [WorkerSession.step] at hs
    split at hs
    case h_2 => cases hs
    case h_1 =>
      obtain ⟨wires, -, rfl⟩ := Option.map_eq_some_iff.mp hs
      exact ⟨hdown, le_refl _⟩
  | stopClock =>
    simp only [WorkerSession.step] at hs
    split at hs
    case h_2 => cases hs
    case h_1 =>
      obtain rfl := Option.some.inj hs
      exact ⟨hdown, le_refl _⟩
  | stopPool =>
    simp only [WorkerSession.step] at hs
    split at hs
    case h_2 => cases hs
    case h_1 =>
      obtain rfl := Option.some.inj hs
      exact ⟨rfl, le_refl _⟩
  | leave =>
    simp only [WorkerSession.step] at hs
    split at hs
    case h_2 => cases hs
    case h_1 caller hmonitor =>
      obtain rfl := Option.some.inj hs
      refine ⟨(resume_poolUp ..).trans hdown, ?_⟩
      exact (resume_work (s := { s with
        monitor := none
        ended := if caller = Caller.stop then s.ended else s.ended + 1 })
        (h.holder _ _ hmonitor)).1

/-! ### There is always a next step -/

/-- All threads have come to their ends, or were not started. -/
structure Rests (s : WorkerSession) : Prop where
  control : s.control = .idle ∨ s.control = .finished
  tunnels : ∀ (t : ℕ) (channel : Channel), s.channels[t]? = some channel →
    channel.tunnel = .finished ∧ (channel.pump = .idle ∨ channel.pump = .finished)

/-- After `halt` a socket that has settled is not open. -/
theorem settled_not_open (h : Sound s) (hhalted : s.wires.halted = true) {wire : Wire}
    (hsettled : settled (s.wires.stage wire) = true) : s.wires.isOpen wire = false := by
  cases hopen : s.wires.isOpen wire with
  | false => rfl
  | true =>
    obtain hstage | hstage | hstage := h.kept.not_held hhalted hopen
    all_goals
      rw [hstage] at hsettled
      cases hsettled

/-- Where the control thread waits at a socket, that socket has settled: it is in use or closed. -/
theorem Control.waits_settled {control : Control} {socket : Socket} {stage : Stage}
    (hgrip : control.grip socket stage = true) (hwaits : control.waits = some socket) :
    settled stage = true := by
  cases control with
  | connect at' =>
    cases at' with
    | handshaking =>
      obtain rfl := Option.some.inj hwaits
      obtain rfl : stage = .held := of_decide_eq_true hgrip
      rfl
    | _ => cases hwaits
  | greeting | joining | reading =>
    obtain rfl := Option.some.inj hwaits
    obtain rfl : stage = .held := of_decide_eq_true hgrip
    rfl
  | _ => cases hwaits

/-- Where a tunnel waits at a socket, that socket has settled. -/
theorem Tunnel.waits_settled {tunnel : Tunnel} {socket : Socket} {stage : Stage}
    (hgrip : tunnel.grip socket stage = true) (hwaits : tunnel.waits = some socket) :
    settled stage = true := by
  cases tunnel with
  | connect at' =>
    cases at' with
    | handshaking =>
      obtain rfl := Option.some.inj hwaits
      obtain rfl : stage = .held := of_decide_eq_true hgrip
      rfl
    | _ => cases hwaits
  | greeting | connecting | relaying =>
    obtain rfl := Option.some.inj hwaits
    obtain rfl : stage = .held := of_decide_eq_true hgrip
    rfl
  | _ => cases hwaits

/-- A socket that is gone has settled. -/
theorem settled_of_gone {stage : Stage} (h : gone stage = true) : settled stage = true := by
  cases stage with
  | absent | released => rfl
  | _ => cases h

/-- A tunnel that has started its second thread has a loopback connection that has settled. -/
theorem Tunnel.launched_settled {tunnel : Tunnel} {stage : Stage}
    (hlaunched : tunnel.launched = true) (hgrip : tunnel.grip .loopback stage = true) :
    settled stage = true := by
  cases tunnel with
  | caught | failing | leaving => exact hgrip
  | relaying | closing =>
    obtain rfl : stage = .held := of_decide_eq_true hgrip
    rfl
  | leavingRemote | returning | finished => exact settled_of_gone hgrip
  | _ => cases hlaunched

/-- A control thread at rest has no socket that is still on its way to being used. -/
theorem Control.rest_settled {control : Control} {socket : Socket} {stage : Stage}
    (hrest : control = .idle ∨ control = .finished) (hgrip : control.grip socket stage = true) :
    settled stage = true := by
  obtain rfl | rfl := hrest
  · have habsent : stage = .absent := by cases socket <;> exact of_decide_eq_true hgrip
    rw [habsent]
    rfl
  · cases socket with
    | tls => exact hgrip
    | loopback =>
      obtain rfl : stage = .absent := of_decide_eq_true hgrip
      rfl

/-- A thread that is not over goes on by itself. -/
theorem thread_step (h : Sound s) (hdown : s.poolUp = false) (hmonitor : s.monitor = none)
    (hmoving : ¬ Rests s) :
    ∃ event s', s.step event = some s' ∧ s.own event ∧ event.ofThread = true ∧
      s'.monitor = none := by
  have hhalted := h.ends.poolDown hdown
  have hclosed := h.closed hhalted
  by_cases hcontrol : s.control = .idle ∨ s.control = .finished
  · -- then it is one of a tunnel's threads
    have hexists : ∃ (t : ℕ) (channel : Channel), s.channels[t]? = some channel ∧
        ¬ (channel.tunnel = .finished ∧ (channel.pump = .idle ∨ channel.pump = .finished)) := by
      by_contra hnone
      refine hmoving ⟨hcontrol, fun t channel hchannel => ?_⟩
      by_contra hrest
      exact hnone ⟨t, channel, hchannel, hrest⟩
    obtain ⟨t, channel, hchannel, hrest⟩ := hexists
    obtain ⟨hgrip, hlaunched⟩ := h.fit.tunnels t channel hchannel
    by_cases hfailing : channel.tunnel = .failing
    · -- it enters the monitor, finds the session closed and leaves
      refine ⟨.enter (.thread (.tunnel t)), s.resume (.thread (.tunnel t)), ?_, trivial, rfl,
        (resume_monitor ..).trans hmonitor⟩
      have hcalls : s.calls (.thread (.tunnel t)) = true := by
        simp [calls, hchannel, hfailing]
      simp [WorkerSession.step, WorkerSession.enter, hmonitor, hcalls, hclosed]
    by_cases hover : channel.tunnel = .finished
    · -- its second copy
      have hpump : channel.pump ≠ .idle ∧ channel.pump ≠ .finished := by
        constructor
        · exact fun heq => hrest ⟨hover, .inl heq⟩
        · exact fun heq => hrest ⟨hover, .inr heq⟩
      have hnext : ∃ access pump, channel.pump.next = some (access, pump) ∧
          access.Possible fun socket => s.wires.stage (.tunnel t, socket) := by
        cases hbefore : channel.pump with
        | idle => exact absurd hbefore hpump.1
        | finished => exact absurd hbefore hpump.2
        | copying => exact ⟨_, _, rfl, trivial⟩
        | closing => exact ⟨_, _, rfl, trivial⟩
      obtain ⟨access, pump, hnext, hpossible⟩ := hnext
      obtain ⟨wires, hperform⟩ := Access.Possible.perform hpossible
      have hs : s.step (.pump t) = some { s with
          wires := wires, channels := s.channels.set t { channel with pump := pump } } := by
        simp only [WorkerSession.step, WorkerSession.runPump, hchannel, hnext, hperform]
      refine ⟨.pump t, _, hs, ?_, rfl, hmonitor⟩
      -- where it waits for a read, its socket is settled and not open
      intro channel₁ socket hchannel₁ hwaits
      obtain rfl := Option.some.inj (hchannel.symm.trans hchannel₁)
      have hsocket : socket = .loopback := by
        cases hbefore : channel.pump with
        | copying =>
          rw [hbefore] at hwaits
          exact (Option.some.inj hwaits).symm
        | _ =>
          rw [hbefore] at hwaits
          cases hwaits
      rw [hsocket]
      exact settled_not_open h hhalted
        (Tunnel.launched_settled (hlaunched hpump.1) (hgrip .loopback))
    · -- it is in its own part
      obtain ⟨succeeds, move, hmove, hpossible, hfalse⟩ :=
        Tunnel.next_own s.view hgrip hfailing hover
      obtain ⟨wires, hperform⟩ := Access.Possible.perform hpossible
      have hs : ∃ s', s.step (.tunnel t succeeds) = some s' ∧ s'.monitor = s.monitor := by
        simp only [WorkerSession.step, WorkerSession.runTunnel, hchannel, hmove, hperform]
        exact ⟨_, rfl, book_monitor ..⟩
      obtain ⟨s', hs, hsame⟩ := hs
      refine ⟨.tunnel t succeeds, s', hs, ?_, rfl, hsame.trans hmonitor⟩
      -- again, what it waits for is not open
      intro channel₁ socket hchannel₁ hwaits
      obtain rfl := Option.some.inj (hchannel.symm.trans hchannel₁)
      exact ⟨hfalse socket hwaits,
        settled_not_open h hhalted (Tunnel.waits_settled (hgrip socket) hwaits)⟩
  · -- it is the control thread
    obtain ⟨hidle, hover⟩ := not_or.mp hcontrol
    by_cases hfailing : s.control = .failing
    · refine ⟨.enter (.thread .control), s.resume (.thread .control), ?_, trivial, rfl,
        (resume_monitor ..).trans hmonitor⟩
      have hcalls : s.calls (.thread .control) = true := decide_eq_true hfailing
      simp [WorkerSession.step, WorkerSession.enter, hmonitor, hcalls, hclosed]
    · obtain ⟨succeeds, move, hmove, hpossible, hfalse⟩ :=
        Control.next_own s.view (fun socket => s.wires.stage (.control, socket))
          (h.control .tls) hidle hfailing hover
      obtain ⟨wires, hperform⟩ := Access.Possible.perform hpossible
      have hs : ∃ s', s.step (.control succeeds) = some s' ∧ s'.monitor = s.monitor := by
        simp only [WorkerSession.step, WorkerSession.runControl, hmove, hperform]
        exact ⟨_, rfl, book_monitor ..⟩
      obtain ⟨s', hs, hsame⟩ := hs
      refine ⟨.control succeeds, s', hs, ?_, rfl, hsame.trans hmonitor⟩
      intro socket hwaits
      exact ⟨hfalse socket hwaits,
        settled_not_open h hhalted (Control.waits_settled (h.control socket) hwaits)⟩

/-! ### The holder of the monitor -/

/-- How far a sweep is from its end. -/
def sweepWork (wires : Tracked.State Wire) : ℕ :=
  match wires.sweep with
  | .idle => wires.tracked.card + 3
  | .flagged => wires.tracked.card + 2
  | .visiting todo => todo.card + 1
  | .visited => 0

/-- How far `halt` is from its end. -/
def haltWork (self : WorkerSession) : ℕ :=
  match self.monitor with
  | none => 0
  | some (_, .closing) => sweepWork self.wires + 4
  | some (_, .stoppingClock) => 3
  | some (_, .stoppingPool) => 2
  | some (_, .done) => 1

/-- A sweep can always go on, until it has closed all it was given and can be cleared. -/
theorem sweep_progress (wires : Tracked.State Wire) :
    (∃ event wires', Tracked.step wires event = some wires' ∧
        (event = .flag ∨ event = .begin ∨ event = .finish ∨ ∃ wire, event = .visit wire) ∧
        sweepWork wires' < sweepWork wires) ∨
      ∃ wires', Tracked.step wires .clear = some wires' := by
  cases hsweep : wires.sweep with
  | idle =>
    refine .inl ⟨.flag, { wires with closed := true, sweep := .flagged }, ?_, .inl rfl, ?_⟩
    · simp [Tracked.step, hsweep]
    · simp [sweepWork, hsweep]
  | flagged =>
    refine .inl ⟨.begin, { wires with sweep := .visiting wires.tracked }, ?_, .inr (.inl rfl), ?_⟩
    · simp [Tracked.step, hsweep]
    · simp [sweepWork, hsweep]
  | visiting todo =>
    obtain rfl | ⟨wire, hwire⟩ := todo.eq_empty_or_nonempty
    · refine .inl ⟨.finish, { wires with sweep := .visited }, ?_, .inr (.inr (.inl rfl)), ?_⟩
      · simp [Tracked.step, hsweep]
      · simp [sweepWork, hsweep]
    · refine .inl ⟨.visit wire, { wires.shut wire with sweep := .visiting (todo.erase wire) }, ?_,
        .inr (.inr (.inr ⟨wire, rfl⟩)), ?_⟩
      · simp [Tracked.step, hsweep, hwire]
      · have hcard := Finset.card_erase_lt_of_mem hwire
        simpa [sweepWork, hsweep] using hcard
  | visited => exact .inr ⟨_, by simp only [Tracked.step, hsweep]; rfl⟩

/-- Whoever has the monitor can go on. -/
theorem holder_step (h : Sound s) (hmonitor : s.monitor ≠ none) :
    ∃ event s', s.step event = some s' ∧ s.own event ∧ s'.haltWork < s.haltWork ∧
      (s'.monitor = none → s'.poolUp = false) := by
  obtain ⟨⟨caller, phase⟩, hholder⟩ := Option.ne_none_iff_exists'.mp hmonitor
  cases phase with
  | closing =>
    have hwork : s.haltWork = sweepWork s.wires + 4 := by simp only [haltWork, hholder]
    -- the pass has a step left, or it is over and the set is cleared
    obtain ⟨event, wires, hstep, hevent, hless⟩ | ⟨wires, hstep⟩ := sweep_progress s.wires
    · have hs : s.sweep event = some { s with wires := wires } := by
        simp [WorkerSession.sweep, hholder, hstep]
      have hwork' : ({ s with wires := wires } : WorkerSession).haltWork = sweepWork wires + 4 := by
        simp only [haltWork, hholder]
      have hnone : ({ s with wires := wires } : WorkerSession).monitor = none →
          ({ s with wires := wires } : WorkerSession).poolUp = false := fun heq =>
        absurd heq hmonitor
      obtain rfl | rfl | rfl | ⟨wire, rfl⟩ := hevent
      · exact ⟨.flag, _, hs, trivial, by omega, hnone⟩
      · exact ⟨.begin, _, hs, trivial, by omega, hnone⟩
      · exact ⟨.finish, _, hs, trivial, by omega, hnone⟩
      · exact ⟨.visit wire, _, hs, trivial, by omega, hnone⟩
    · refine ⟨.clear, { s with wires := wires, monitor := some (caller, .stoppingClock) }, ?_,
        trivial, ?_, fun heq => by cases heq⟩
      · simp [WorkerSession.step, hholder, hstep]
      · rw [hwork]
        show 3 < _
        omega
  | stoppingClock =>
    refine ⟨.stopClock, { s with clockUp := false, monitor := some (caller, .stoppingPool) }, ?_,
      trivial, ?_, fun heq => by cases heq⟩
    · simp [WorkerSession.step, hholder]
    · simp [haltWork, hholder]
  | stoppingPool =>
    refine ⟨.stopPool, { s with poolUp := false, monitor := some (caller, .done) }, ?_,
      trivial, ?_, fun heq => by cases heq⟩
    · simp [WorkerSession.step, hholder]
    · simp [haltWork, hholder]
  | done =>
    -- it leaves, and the executor has been stopped before
    refine ⟨.leave, _, by simp only [WorkerSession.step, hholder]; rfl, trivial, ?_, fun _ => ?_⟩
    · rw [haltWork, resume_monitor]
      simp [haltWork, hholder]
    · exact (resume_poolUp ..).trans (h.ends.done caller hholder)

/-! ### The theorem -/

/-- A run of steps that wait for nobody. -/
abbrev OwnRun (s : WorkerSession) (events : List Event) (s' : WorkerSession) : Prop :=
  Trace (fun s event s' => s.step event = some s' ∧ s.own event) s events s'

/-- Whoever holds the monitor of a closing session can finish `halt` with steps of its own. -/
theorem halt_completes (h : Sound s) (hclosing : s.wires.closed = true ∨ s.monitor ≠ none) :
    ∃ events s', OwnRun s events s' ∧ Sound s' ∧ s'.monitor = none ∧ s'.poolUp = false := by
  induction hwork : s.haltWork using Nat.strong_induction_on generalizing s with
  | _ n ih =>
    by_cases hmonitor : s.monitor = none
    · obtain hclosed | hne := hclosing
      · exact ⟨[], s, .nil, h, hmonitor, h.ends.closed hclosed hmonitor⟩
      · exact absurd hmonitor hne
    · obtain ⟨event, s₁, hs, hown, hless, hnone⟩ := holder_step h hmonitor
      have hsound := h.step hs
      by_cases hleft : s₁.monitor = none
      · exact ⟨[event], s₁, .cons ⟨hs, hown⟩ .nil, hsound, hleft, hnone hleft⟩
      · obtain ⟨events, s', hrun, hrest⟩ := ih _ (hwork ▸ hless) hsound (.inr hleft) rfl
        exact ⟨event :: events, s', .cons ⟨hs, hown⟩ hrun, hrest⟩

/-- Once `halt` is over, the threads can come to their ends with steps of their own. -/
theorem threads_complete (h : Sound s) (hmonitor : s.monitor = none) (hdown : s.poolUp = false) :
    ∃ events s', OwnRun s events s' ∧ Sound s' ∧ Rests s' ∧ s'.monitor = none ∧
      s'.poolUp = false := by
  induction hwork : s.work using Nat.strong_induction_on generalizing s with
  | _ n ih =>
    by_cases hrests : Rests s
    · exact ⟨[], s, .nil, h, hrests, hmonitor, hdown⟩
    · obtain ⟨event, s₁, hs, hown, hthread, hnone⟩ := thread_step h hdown hmonitor hrests
      obtain ⟨hdown₁, hless⟩ := work_step h hs hdown
      rw [if_pos hthread] at hless
      obtain ⟨events, s', hrun, hrest⟩ :=
        ih s₁.work (by omega) (h.step hs) hnone hdown₁ rfl
      exact ⟨event :: events, s', .cons ⟨hs, hown⟩ hrun, hrest⟩

/-- When all threads rest, no socket of the session is open. -/
theorem Rests.not_open (h : Sound s) (hrests : Rests s) (hdown : s.poolUp = false) (wire : Wire) :
    s.wires.isOpen wire = false := by
  have hhalted := h.ends.poolDown hdown
  obtain ⟨thread, socket⟩ := wire
  refine settled_not_open h hhalted ?_
  cases thread with
  | control =>
    have hgrip := h.control socket
    exact Control.rest_settled hrests.control hgrip
  | tunnel t =>
    cases hchannel : s.channels[t]? with
    | none =>
      rw [h.fit.beyond t hchannel]
      rfl
    | some channel =>
      have hgrip := (h.fit.tunnels t channel hchannel).1 socket
      rw [(hrests.tunnels t channel hchannel).1] at hgrip
      exact settled_of_gone hgrip

/-- **Once an end of the session has begun**, its threads and whoever has the monitor can come to
    their ends without anybody else, and then no socket is open.  Once the pool is shut down the
    threads have only so many steps left, whatever else happens. -/
theorem session_winds_down {events : List Event} (h : Run events s)
    (hclosing : s.wires.closed = true ∨ s.monitor ≠ none) :
    (∃ events' s', OwnRun s events' s' ∧ Rests s' ∧ s'.monitor = none ∧
        ∀ wire, s'.wires.isOpen wire = false) ∧
      (s.poolUp = false → ∀ events' s',
        Trace (fun s event s' => s.step event = some s') s events' s' →
          events'.countP Event.ofThread ≤ s.work) := by
  have hsound := h.sound
  constructor
  · obtain ⟨events₁, s₁, hrun₁, hsound₁, hmonitor₁, hdown₁⟩ := halt_completes hsound hclosing
    obtain ⟨events₂, s₂, hrun₂, hsound₂, hrests, hmonitor₂, hdown₂⟩ :=
      threads_complete hsound₁ hmonitor₁ hdown₁
    exact ⟨events₁ ++ events₂, s₂, hrun₁.append hrun₂, hrests, hmonitor₂,
      hrests.not_open hsound₂ hdown₂⟩
  · intro hdown events' s' hrun
    have hbound := hrun.countP_add_le (p := Event.ofThread)
      (I := fun s => Sound s ∧ s.poolUp = false) work ⟨hsound, hdown⟩ ?_
    · omega
    · rintro s₁ event s₂ ⟨hsound₁, hdown₁⟩ hs
      obtain ⟨hdown₂, hless⟩ := work_step hsound₁ hs hdown₁
      exact ⟨⟨hsound₁.step hs, hdown₂⟩, hless⟩

/-- A session that was stopped winds down by its own steps, and no socket of it stays open. -/
theorem session_winds_down_stopped : ∃ s events' s', Run stopped s ∧ OwnRun s events' s' ∧
    Rests s' ∧ ∀ wire, s'.wires.isOpen wire = false := by
  have hresult : (stopped.foldlM (fun s event => step s event) init).map
      (fun s => s.wires.closed) = some true := by decide
  obtain ⟨s, hs, hclosed⟩ := Option.map_eq_some_iff.mp hresult
  have hrun : Run stopped s := Trace.of_foldlM hs
  obtain ⟨events', s', hown, hrests, -, hopen⟩ := (session_winds_down hrun (.inl hclosed)).1
  exact ⟨s, events', s', hrun, hown, hrests, hopen⟩

end WorkerSession

end ShareCompute.App
