import ShareCompute.App.WorkerSession
import Mathlib.Algebra.BigOperators.Group.List.Basic
import Mathlib.Algebra.GroupWithZero.Nat

namespace ShareCompute.App

open ShareCompute.Library
open ShareCompute.Library.Tracked (Stage Kept)

/-!
# The sockets and permits of a thread

Where a thread of an Android session is tells how far each of its sockets has got (`grip`), whether
it holds a permit, and whether its second copy may have been started.  One lemma for each of the
three, by the rows of `next`.
-/

namespace WorkerSession

/-! ### What an access does to the stage of a socket -/

/-- How far a socket has got behind an access of the thread, for a session that is closed or not. -/
def Access.after (closed : Bool) (access : Access) (socket : Socket) (stage : Stage) : Stage :=
  match access with
  | .nothing => stage
  | .io _ => stage
  | .create moved => if socket = moved then .created else stage
  | .register moved => if socket = moved then .registering else stage
  | .check moved => if socket = moved then (if closed then .refused else .held) else stage
  | .discard moved => if socket = moved then .released else stage
  | .release moved => if socket = moved then .released else stage
  | .close _ => stage
  | .drop moved => if socket = moved then (if stage = .held then .released else stage) else stage

/-- A replaced value is found at its own wire, and elsewhere the old one. -/
theorem update_wire {α : Type} (f : Wire → α) (thread : Thread) (socket : Socket) (value : α)
    (wire : Wire) : Function.update f (thread, socket) value wire =
      if wire.1 = thread then (if wire.2 = socket then value else f wire) else f wire := by
  obtain ⟨other, otherSocket⟩ := wire
  by_cases hthread : other = thread
  · by_cases hsocket : otherSocket = socket
    · rw [hthread, hsocket, Function.update_self, if_pos rfl, if_pos rfl]
    · rw [if_pos hthread, if_neg hsocket]
      exact Function.update_of_ne (fun heq => hsocket (Prod.mk.inj heq).2) ..
  · rw [if_neg hthread]
    exact Function.update_of_ne (fun heq => hthread (Prod.mk.inj heq).1) ..

/-- Where nothing is replaced every wire is what it was, in the form in which the other cases say
    it. -/
theorem stage_same {wires : Tracked.State Wire} {thread : Thread} (wire : Wire) :
    wires.stage wire = if wire.1 = thread then wires.stage wire else wires.stage wire := by
  rw [ite_self]

/-- The stages after an access, and what it leaves alone. -/
theorem perform_frame {thread : Thread} {access : Access} {wires wires' : Tracked.State Wire}
    (h : access.perform thread wires = some wires') :
    wires'.closed = wires.closed ∧ wires'.sweep = wires.sweep ∧ wires'.halted = wires.halted ∧
      ∀ wire, wires'.stage wire = if wire.1 = thread then
        access.after wires.closed wire.2 (wires.stage wire) else wires.stage wire := by
  cases access with
  | nothing =>
    obtain rfl := Option.some.inj h
    exact ⟨rfl, rfl, rfl, stage_same⟩
  | io socket =>
    simp only [Access.perform, Option.ite_none_right_eq_some, Option.some.injEq] at h
    obtain ⟨-, rfl⟩ := h
    exact ⟨rfl, rfl, rfl, stage_same⟩
  | create socket | register socket | check socket | discard socket | release socket =>
    -- each of these moves one wire to its next stage
    simp only [Access.perform, Tracked.step, Option.ite_none_right_eq_some,
      Option.some.injEq] at h
    obtain ⟨-, rfl⟩ := h
    exact ⟨rfl, rfl, rfl, fun wire => update_wire _ _ _ _ wire⟩
  | close socket =>
    simp only [Access.perform, Tracked.step] at h
    split at h
    · obtain rfl := Option.some.inj h
      exact ⟨rfl, rfl, rfl, stage_same⟩
    · obtain rfl := Option.some.inj h
      exact ⟨rfl, rfl, rfl, stage_same⟩
  | drop socket =>
    simp only [Access.perform, Tracked.step] at h
    split at h
    case isTrue hheld =>
      obtain rfl := Option.some.inj h
      refine ⟨rfl, rfl, rfl, fun wire => (update_wire ..).trans ?_⟩
      by_cases hthread : wire.1 = thread
      · by_cases hsocket : wire.2 = socket
        · have hwire : wire = (thread, socket) := Prod.ext hthread hsocket
          simp [Access.after, hwire, hheld]
        · simp [Access.after, hsocket, Tracked.State.shut, Tracked.State.forget]
      · simp [hthread, Tracked.State.shut, Tracked.State.forget]
    case isFalse hheld =>
      obtain rfl := Option.some.inj h
      refine ⟨rfl, rfl, rfl, fun wire => ?_⟩
      by_cases hthread : wire.1 = thread
      · by_cases hsocket : wire.2 = socket
        · have hwire : wire = (thread, socket) := Prod.ext hthread hsocket
          simp [Access.after, hwire, hheld]
        · simp [Access.after, hsocket]
      · simp [hthread]

/-- Every access keeps what is true of the sockets: an open one is in its owner's hands, and whoever
    closes the session finds it. -/
theorem perform_kept {thread : Thread} {access : Access} {wires wires' : Tracked.State Wire}
    (hkept : Kept wires) (h : access.perform thread wires = some wires') : Kept wires' := by
  cases access with
  | nothing => rwa [← Option.some.inj h]
  | io socket =>
    simp only [Access.perform, Option.ite_none_right_eq_some, Option.some.injEq] at h
    rwa [← h.2]
  | create socket =>
    rw [Access.perform] at h
    exact hkept.step h
  | register socket =>
    rw [Access.perform] at h
    exact hkept.step h
  | check socket =>
    rw [Access.perform] at h
    exact hkept.step h
  | discard socket =>
    rw [Access.perform] at h
    exact hkept.step h
  | release socket =>
    rw [Access.perform] at h
    exact hkept.step h
  | close socket =>
    simp only [Access.perform] at h
    split at h
    · exact hkept.step h
    · rwa [← Option.some.inj h]
  | drop socket =>
    simp only [Access.perform] at h
    split at h
    · exact hkept.step h
    · rwa [← Option.some.inj h]

/-! ### The sockets of a thread, from where it is -/

/-- The socket is not there yet, is used by its thread, or was closed and taken out of the set. -/
def settled (stage : Stage) : Bool := stage = .absent || stage = .held || stage = .released

/-- The socket is not there, or was closed and taken out of the set. -/
def gone (stage : Stage) : Bool := stage = .absent || stage = .released

/-- A variable's socket is closed and removed, if there is one. -/
theorem gone_drop {stage : Stage} (h : settled stage = true) :
    gone (if stage = .held then .released else stage) = true := by
  cases stage <;> simp_all [settled, gone]

/-- How far the sockets of a connection attempt have got at each of its points. -/
def Connect.grip : Connect → Stage → Bool
  | .starting, stage => stage = .absent
  | .created, stage => stage = .created
  | .registered, stage => stage = .registering
  | .refused, stage => stage = .refused
  | .handshaking, stage => stage = .held

/-- How far the sockets of the control thread have got at each of its points; it has no loopback
    connection. -/
def Control.grip : Control → Socket → Stage → Bool
  | _, .loopback, stage => stage = .absent
  | .idle, .tls, stage => stage = .absent
  | .connect at', .tls, stage => at'.grip stage
  | .failing, .tls, stage => settled stage
  | .finished, .tls, stage => settled stage
  | _, .tls, stage => stage = .held

/-- How far the two sockets of a tunnel have got at each of its points. -/
def Tunnel.grip : Tunnel → Socket → Stage → Bool
  | .connect at', .tls, stage => at'.grip stage
  | .connect _, .loopback, stage => stage = .absent
  | .greeting, .loopback, stage => stage = .absent
  | .dialing, .loopback, stage => stage = .absent
  | .dialCreated, .loopback, stage => stage = .created
  | .dialRegistered, .loopback, stage => stage = .registering
  | .dialRefused, .loopback, stage => stage = .refused
  | .caught, _, stage => settled stage
  | .failing, _, stage => settled stage
  | .leaving, _, stage => settled stage
  | .leavingRemote, .tls, stage => settled stage
  | .leavingRemote, .loopback, stage => gone stage
  | .returning, _, stage => gone stage
  | .finished, _, stage => gone stage
  | _, _, stage => stage = .held

/-- `connect` goes on, or comes back with a socket in use, or with none. -/
theorem Connect.next_grip {P : Type} {inside : Connect → P} {returns throws : P} {closed : Bool}
    {at' : Connect} {succeeds : Bool} {move : Move P}
    (h : Connect.next inside returns throws closed at' succeeds = some move) :
    move.books = .same ∧ (∀ stage, move.access.after closed .loopback stage = stage) ∧
      ((∃ at'', move.next = inside at'' ∧ ∀ stage, at'.grip stage = true →
          at''.grip (move.access.after closed .tls stage) = true) ∨
        (move.next = returns ∧ ∀ stage, at'.grip stage = true →
          move.access.after closed .tls stage = .held) ∨
        (move.next = throws ∧ ∀ stage, at'.grip stage = true →
          settled (move.access.after closed .tls stage) = true)) := by
  unfold Connect.next at h
  split at h
  case h_1 =>
    obtain rfl := Option.some.inj h
    exact ⟨rfl, fun _ => rfl, .inl ⟨_, rfl, fun _ _ => rfl⟩⟩
  case h_2 =>
    obtain rfl := Option.some.inj h
    refine ⟨rfl, fun _ => rfl, .inr (.inr ⟨rfl, fun stage hgrip => ?_⟩)⟩
    obtain rfl := of_decide_eq_true hgrip
    rfl
  case h_3 =>
    obtain rfl := Option.some.inj h
    exact ⟨rfl, fun _ => rfl, .inl ⟨_, rfl, fun _ _ => rfl⟩⟩
  case h_4 =>
    obtain rfl := Option.some.inj h
    refine ⟨rfl, fun _ => rfl, .inl ⟨_, rfl, fun _ _ => ?_⟩⟩
    cases closed <;> rfl
  case h_5 =>
    obtain rfl := Option.some.inj h
    exact ⟨rfl, fun _ => rfl, .inr (.inr ⟨rfl, fun _ _ => rfl⟩)⟩
  case h_6 =>
    obtain rfl := Option.some.inj h
    exact ⟨rfl, fun _ => rfl, .inr (.inl ⟨rfl, fun _ hgrip => of_decide_eq_true hgrip⟩)⟩
  case h_7 =>
    obtain rfl := Option.some.inj h
    exact ⟨rfl, fun _ => rfl, .inr (.inr ⟨rfl, fun _ _ => rfl⟩)⟩
  case h_8 => cases h

/-- A step of the control thread moves its sockets as its next point says. -/
theorem Control.next_grip {view : View} {control : Control} {succeeds : Bool}
    {move : Move Control} (h : control.next view succeeds = some move) (socket : Socket)
    (stage : Stage) (hgrip : control.grip socket stage = true) :
    move.next.grip socket (move.access.after view.closed socket stage) = true := by
  unfold Control.next at h
  split at h
  case h_2 at' =>
    obtain ⟨-, hloopback, ⟨at'', hnext, htls⟩ | ⟨hnext, htls⟩ | ⟨hnext, htls⟩⟩ :=
      Connect.next_grip h
    all_goals
      rw [hnext]
      cases socket with
      | loopback => rwa [hloopback]
      | tls => simpa [Control.grip] using htls stage hgrip
  all_goals (try split at h) <;>
    first
    | cases h; done
    | (obtain rfl := Option.some.inj h
       cases socket <;> simp_all [Control.grip, Connect.grip, Access.after, settled])

/-- A step of a tunnel moves its two sockets as its next point says. -/
theorem Tunnel.next_grip {view : View} {tunnel : Tunnel} {succeeds : Bool}
    {move : Move Tunnel} (h : tunnel.next view succeeds = some move) (socket : Socket)
    (stage : Stage) (hgrip : tunnel.grip socket stage = true) :
    move.next.grip socket (move.access.after view.closed socket stage) = true := by
  unfold Tunnel.next at h
  split at h
  case h_1 at' =>
    obtain ⟨-, hloopback, ⟨at'', hnext, htls⟩ | ⟨hnext, htls⟩ | ⟨hnext, htls⟩⟩ :=
      Connect.next_grip h
    all_goals
      rw [hnext]
      cases socket with
      | loopback =>
        rw [hloopback]
        obtain rfl := of_decide_eq_true hgrip
        rfl
      | tls => simpa [Tunnel.grip] using htls stage hgrip
  case h_13 =>
    obtain rfl := Option.some.inj h
    split <;> exact hgrip
  case h_14 =>
    obtain rfl := Option.some.inj h
    cases socket with
    | tls => exact hgrip
    | loopback => exact gone_drop hgrip
  case h_15 =>
    obtain rfl := Option.some.inj h
    cases socket with
    | tls => exact gone_drop hgrip
    | loopback => simpa [Access.after, Tunnel.grip] using hgrip
  case h_16 =>
    obtain rfl := Option.some.inj h
    exact hgrip
  -- everywhere else the thread creates or checks one socket, or does nothing
  all_goals (try split at h) <;>
    first
    | cases h; done
    | (obtain rfl := Option.some.inj h
       cases socket <;> simp_all [Tunnel.grip, Access.after, settled])

/-! ### Permits -/

/-- The permits that the control thread holds: one while it admits a tunnel. -/
def Control.permits : Control → ℕ
  | .admitting => 1
  | _ => 0

/-- The permits that a tunnel holds: one until it has finished. -/
def Channel.permits (channel : Channel) : ℕ := if channel.tunnel = .finished then 0 else 1

/-- The tunnels that have not come to their end. -/
def running (self : WorkerSession) : ℕ := (self.channels.map Channel.permits).sum

/-- What a step of the control thread notes in the books agrees with the permits that it holds
    before and after. -/
theorem Control.next_books {view : View} {control : Control} {succeeds : Bool}
    {move : Move Control} (h : control.next view succeeds = some move) :
    ((move.books = .same ∨ move.books = .beat) ∧ move.next.permits = control.permits) ∨
      (move.books = .take ∧ view.permit = true ∧ control.permits = 0 ∧ move.next.permits = 1) ∨
      ((move.books = .spawn ∧ view.poolUp = true ∨ move.books = .lose) ∧
        control.permits = 1 ∧ move.next.permits = 0) := by
  unfold Control.next at h
  split at h
  case h_2 at' =>
    obtain ⟨hbooks, -, ⟨at'', hnext, -⟩ | ⟨hnext, -⟩ | ⟨hnext, -⟩⟩ := Connect.next_grip h
    all_goals exact .inl ⟨.inl hbooks, by rw [hnext]; rfl⟩
  all_goals (try split at h) <;>
    first
    | cases h; done
    | (obtain rfl := Option.some.inj h
       simp_all [Control.permits])

/-- A tunnel gives its permit back at its end. -/
theorem Tunnel.next_books {view : View} {tunnel : Tunnel} {succeeds : Bool}
    {move : Move Tunnel} (h : tunnel.next view succeeds = some move) :
    tunnel ≠ .finished ∧
      ((move.books = .same ∨ move.books = .pump) ∧ move.next ≠ .finished ∨
        move.books = .giveBack ∧ move.next = .finished) := by
  unfold Tunnel.next at h
  split at h
  case h_1 at' =>
    obtain ⟨hbooks, -, ⟨at'', hnext, -⟩ | ⟨hnext, -⟩ | ⟨hnext, -⟩⟩ := Connect.next_grip h
    all_goals exact ⟨nofun, .inl ⟨.inl hbooks, by rw [hnext]; nofun⟩⟩
  all_goals (try split at h) <;>
    first
    | cases h; done
    | (obtain rfl := Option.some.inj h
       simp)

/-! ### The second copy -/

/-- The second copy may have been started. -/
def Tunnel.launched : Tunnel → Bool
  | .relaying => true
  | .closing _ => true
  | .caught => true
  | .failing => true
  | .leaving => true
  | .leavingRemote => true
  | .returning => true
  | .finished => true
  | _ => false

/-- A tunnel that has started its second thread, or starts it now, has done so for the rest of its
    points. -/
theorem Tunnel.next_launched {view : View} {tunnel : Tunnel} {succeeds : Bool}
    {move : Move Tunnel} (h : tunnel.next view succeeds = some move)
    (hlaunched : tunnel.launched = true ∨ move.books = .pump) : move.next.launched = true := by
  unfold Tunnel.next at h
  split at h
  case h_1 at' =>
    obtain ⟨hbooks, -⟩ := Connect.next_grip h
    rw [hbooks] at hlaunched
    obtain hlaunched | hbooks := hlaunched
    · cases hlaunched
    · cases hbooks
  all_goals (try split at h) <;>
    first
    | cases h; done
    | (obtain rfl := Option.some.inj h
       simp_all [Tunnel.launched])

end WorkerSession

end ShareCompute.App
