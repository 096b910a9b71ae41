import ShareCompute.App.SessionThreads

namespace ShareCompute.App

open ShareCompute.Library
open ShareCompute.Library.Tracked (Stage Kept)

/-!
# The end of an Android session

A session ends because `stop` was called or because one of its threads failed first.  Then `halt`
closes the sockets that it finds, while threads still open others.

* `Ends` — who holds the monitor, and what the listener has heard.
* `Sound` — that, the sockets of every thread, and the permits.
* `session_shutdown` — the listener hears of one end at most, four tunnels at most are running, and
  after `halt` no thread uses an open socket.
-/

namespace WorkerSession

/-! ### Who ends the session -/

variable {s s' : WorkerSession}

/-- A note in the books closes no socket. -/
@[simp] theorem book_wires (s : WorkerSession) (books : Books) :
    (s.book books).wires = s.wires := by cases books <;> rfl

/-- A note in the books does not move the control thread. -/
@[simp] theorem book_control (s : WorkerSession) (books : Books) :
    (s.book books).control = s.control := by cases books <;> rfl

/-- A note in the books does not shut the pool down. -/
@[simp] theorem book_poolUp (s : WorkerSession) (books : Books) :
    (s.book books).poolUp = s.poolUp := by cases books <;> rfl

/-- A note in the books does not take or leave the monitor. -/
@[simp] theorem book_monitor (s : WorkerSession) (books : Books) :
    (s.book books).monitor = s.monitor := by cases books <;> rfl

/-- A note in the books is not heard by the listener. -/
@[simp] theorem book_ended (s : WorkerSession) (books : Books) :
    (s.book books).ended = s.ended := by cases books <;> rfl

/-- A note in the books asks for no end. -/
@[simp] theorem book_requested (s : WorkerSession) (books : Books) :
    (s.book books).requested = s.requested := by cases books <;> rfl

/-- Only the start of a tunnel adds a channel. -/
theorem book_channels (s : WorkerSession) {books : Books} (h : books ≠ .spawn) :
    (s.book books).channels = s.channels := by
  cases books with
  | spawn => exact absurd rfl h
  | _ => rfl

/-- A caller that goes on from `halt` closes no socket by that. -/
@[simp] theorem resume_wires (s : WorkerSession) (caller : Caller) :
    (s.resume caller).wires = s.wires := by
  unfold resume
  split <;> try rfl
  split <;> rfl

/-- A caller that goes on from `halt` leaves the pool as it is. -/
@[simp] theorem resume_poolUp (s : WorkerSession) (caller : Caller) :
    (s.resume caller).poolUp = s.poolUp := by
  unfold resume
  split <;> try rfl
  split <;> rfl

/-- A caller that goes on from `halt` does not take or leave the monitor. -/
@[simp] theorem resume_monitor (s : WorkerSession) (caller : Caller) :
    (s.resume caller).monitor = s.monitor := by
  unfold resume
  split <;> try rfl
  split <;> rfl

/-- A caller that goes on from `halt` tells the listener nothing yet. -/
@[simp] theorem resume_ended (s : WorkerSession) (caller : Caller) :
    (s.resume caller).ended = s.ended := by
  unfold resume
  split <;> try rfl
  split <;> rfl

/-- A caller that goes on from `halt` asks for no end. -/
@[simp] theorem resume_requested (s : WorkerSession) (caller : Caller) :
    (s.resume caller).requested = s.requested := by
  unfold resume
  split <;> try rfl
  split <;> rfl

/-- The monitor, and what the listener has heard. -/
structure Ends (s : WorkerSession) : Prop where
  idle : (∀ caller, s.monitor ≠ some (caller, .closing)) → s.wires.sweep = .idle
  halted : ∀ caller phase, s.monitor = some (caller, phase) → phase ≠ .closing →
    s.wires.halted = true
  poolDown : s.poolUp = false → s.wires.halted = true
  done : ∀ caller, s.monitor = some (caller, .done) → s.poolUp = false
  /-- whoever has set the flag has the monitor until the pool is shut down -/
  closed : s.wires.closed = true → s.monitor = none → s.poolUp = false
  /-- nobody has ended the session, and who has asked for it is in `stop` -/
  first : s.wires.closed = false →
    s.ended = 0 ∧ (s.requested = true → ∃ phase, s.monitor = some (.stop, phase))
  once : s.ended ≤ 1
  requested : s.requested = true → s.ended = 0
  failing : ∀ caller phase, s.monitor = some (caller, phase) → caller ≠ .stop →
    s.ended = 0 ∧ s.requested = false

/-- At the start nobody holds the monitor and the listener has heard nothing. -/
theorem init_ends : Ends init where
  idle _ := rfl
  halted _ _ h := by cases h
  poolDown h := by cases h
  done _ h := by cases h
  closed h := by cases h
  first _ := ⟨rfl, fun h => by cases h⟩
  once := Nat.zero_le _
  requested h := by cases h
  failing _ _ h := by cases h

/-- A step of a thread that touches none of the fields below leaves the shutdown where it is. -/
theorem Ends.congr (h : Ends s) (hclosed : s'.wires.closed = s.wires.closed)
    (hsweep : s'.wires.sweep = s.wires.sweep) (hhalted : s'.wires.halted = s.wires.halted)
    (hmonitor : s'.monitor = s.monitor) (hpoolUp : s'.poolUp = s.poolUp)
    (hended : s'.ended = s.ended) (hrequested : s'.requested = s.requested) : Ends s' where
  idle := by
    rw [hmonitor, hsweep]
    exact h.idle
  halted := by
    rw [hmonitor, hhalted]
    exact h.halted
  poolDown := by
    rw [hpoolUp, hhalted]
    exact h.poolDown
  done := by
    rw [hmonitor, hpoolUp]
    exact h.done
  closed := by
    rw [hclosed, hmonitor, hpoolUp]
    exact h.closed
  first := by
    rw [hclosed, hended, hrequested, hmonitor]
    exact h.first
  once := by
    rw [hended]
    exact h.once
  requested := by
    rw [hrequested, hended]
    exact h.requested
  failing := by
    rw [hmonitor, hended, hrequested]
    exact h.failing

/-- Somebody gets the monitor, which was free, and begins to close the sockets. -/
theorem Ends.enter (h : Ends s) (caller : Caller) (hmonitor : s.monitor = none)
    (hopen : caller ≠ .stop → s.wires.closed = false) :
    Ends { s with
      monitor := some (caller, .closing)
      requested := s.requested || (caller = .stop && !s.wires.closed) } where
  idle hnever := absurd rfl (hnever caller)
  halted := by
    rintro _ phase heq hphase
    exact absurd (Prod.mk.inj (Option.some.inj heq)).2.symm hphase
  poolDown := h.poolDown
  done := by
    rintro _ heq
    cases (Prod.mk.inj (Option.some.inj heq)).2
  closed _ hnone := by cases hnone
  first hclosed := by
    obtain ⟨hended, hrequested⟩ := h.first hclosed
    refine ⟨hended, fun hasked => ?_⟩
    -- nobody had asked before
    by_cases hstop : caller = .stop
    · exact ⟨_, by rw [hstop]⟩
    · cases hbefore : s.requested with
      | true =>
        obtain ⟨phase, hphase⟩ := hrequested hbefore
        rw [hmonitor] at hphase
        cases hphase
      | false => simp [hbefore, hstop] at hasked
  once := h.once
  requested hasked := by
    cases hclosed : s.wires.closed with
    | false => exact (h.first hclosed).1
    | true =>
      refine h.requested ?_
      simpa [hclosed] using hasked
  failing := by
    rintro caller' phase heq hstop
    obtain ⟨rfl, -⟩ := Prod.mk.inj (Option.some.inj heq)
    obtain ⟨hended, hrequested⟩ := h.first (hopen hstop)
    refine ⟨hended, ?_⟩
    cases hbefore : s.requested with
    | true =>
      obtain ⟨phase, hphase⟩ := hrequested hbefore
      rw [hmonitor] at hphase
      cases hphase
    | false => simp [hstop]

/-- The holder of the monitor closes sockets, which leaves it where it is. -/
theorem Ends.sweep {caller : Caller} {wires : Tracked.State Wire} (h : Ends s)
    (hmonitor : s.monitor = some (caller, .closing))
    (hclosed : s.wires.closed = true → wires.closed = true)
    (hhalted : s.wires.halted = true → wires.halted = true) : Ends { s with wires := wires } where
  idle hnever := absurd hmonitor (hnever caller)
  halted := by
    rintro _ phase heq hphase
    rw [hmonitor] at heq
    exact absurd (Prod.mk.inj (Option.some.inj heq)).2.symm hphase
  poolDown hdown := hhalted (h.poolDown hdown)
  done := h.done
  closed _ hnone := by
    rw [hmonitor] at hnone
    cases hnone
  first hopen := by
    refine h.first ?_
    cases hbefore : s.wires.closed with
    | false => rfl
    | true =>
      rw [hclosed hbefore] at hopen
      cases hopen
  once := h.once
  requested := h.requested
  failing := h.failing

/-- The holder goes on to its next phase. -/
theorem Ends.phase {caller : Caller} {phase phase' : Halt} {wires : Tracked.State Wire}
    {clockUp poolUp : Bool} (h : Ends s) (hmonitor : s.monitor = some (caller, phase))
    (hclosed : wires.closed = true) (hsweep : wires.sweep = .idle)
    (hhalted : wires.halted = true) (hdone : phase' = .done → poolUp = false) :
    Ends { s with
      wires := wires, clockUp := clockUp, poolUp := poolUp, monitor := some (caller, phase') } where
  idle _ := hsweep
  halted _ _ _ _ := hhalted
  poolDown _ := hhalted
  done := by
    rintro _ heq
    exact hdone (Prod.mk.inj (Option.some.inj heq)).2
  closed _ hnone := by cases hnone
  first hopen := by
    have hopen : wires.closed = false := hopen
    rw [hclosed] at hopen
    cases hopen
  once := h.once
  requested := h.requested
  failing := by
    rintro caller' _ heq hstop
    obtain ⟨rfl, -⟩ := Prod.mk.inj (Option.some.inj heq)
    exact h.failing caller phase hmonitor hstop

/-- The holder leaves, and if it was a failure the listener hears of it. -/
theorem Ends.leave {caller : Caller} (h : Ends s) (hmonitor : s.monitor = some (caller, .done))
    (hclosed : s.wires.closed = true) :
    Ends { s with
      monitor := none, ended := if caller = Caller.stop then s.ended else s.ended + 1 } where
  idle _ := h.idle fun caller' heq => by
    rw [hmonitor] at heq
    cases (Prod.mk.inj (Option.some.inj heq)).2
  halted _ _ heq := by cases heq
  poolDown := h.poolDown
  done _ heq := by cases heq
  closed _ _ := h.done caller hmonitor
  first hopen := by
    have hopen : s.wires.closed = false := hopen
    rw [hclosed] at hopen
    cases hopen
  once := by
    show (if caller = Caller.stop then s.ended else s.ended + 1) ≤ 1
    split
    case isTrue => exact h.once
    case isFalse hstop => rw [(h.failing caller .done hmonitor hstop).1]
  requested hasked := by
    show (if caller = Caller.stop then s.ended else s.ended + 1) = 0
    split
    case isTrue => exact h.requested hasked
    case isFalse hstop =>
      have hquiet := (h.failing caller .done hmonitor hstop).2
      rw [hquiet] at hasked
      cases hasked
  failing _ _ heq := by cases heq

/-! ### Where everything is -/

/-- A sum over a list in which one entry is replaced differs by what that entry counted. -/
theorem sum_map_set {α : Type} (f : α → ℕ) {l : List α} {i : ℕ} {a b : α} (h : l[i]? = some a) :
    ((l.set i b).map f).sum + f a = (l.map f).sum + f b := by
  induction l generalizing i with
  | nil => cases h
  | cons c l ih =>
    cases i with
    | zero =>
      obtain rfl := Option.some.inj h
      simp only [List.set_cons_zero, List.map_cons, List.sum_cons]
      omega
    | succ i =>
      have hrest := ih (i := i) h
      simp only [List.set_cons_succ, List.map_cons, List.sum_cons]
      omega

/-- A tunnel's sockets are where its threads are. -/
def Channel.Fits (channel : Channel) (t : ℕ) (wires : Tracked.State Wire) : Prop :=
  (∀ socket, channel.tunnel.grip socket (wires.stage (.tunnel t, socket)) = true) ∧
    (channel.pump ≠ .idle → channel.tunnel.launched = true)

/-- So are those of all tunnels, and there are no others. -/
structure Fit (channels : List Channel) (wires : Tracked.State Wire) : Prop where
  tunnels : ∀ (t : ℕ) (channel : Channel), channels[t]? = some channel → channel.Fits t wires
  beyond : ∀ t : ℕ, channels[t]? = none → ∀ socket, wires.stage (.tunnel t, socket) = .absent

/-- Whether the channels fit their sockets depends on the sockets of the tunnels only. -/
theorem Fit.congr {channels : List Channel} {wires wires' : Tracked.State Wire}
    (h : Fit channels wires)
    (hstage : ∀ t socket, wires'.stage (.tunnel t, socket) = wires.stage (.tunnel t, socket)) :
    Fit channels wires' where
  tunnels t channel hchannel := by
    obtain ⟨hgrip, hpump⟩ := h.tunnels t channel hchannel
    exact ⟨fun socket => by rw [hstage]; exact hgrip socket, hpump⟩
  beyond t hnone socket := by
    rw [hstage]
    exact h.beyond t hnone socket

/-- One tunnel's threads go on, and nobody else's sockets are touched. -/
theorem Fit.set {channels : List Channel} {wires wires' : Tracked.State Wire}
    (h : Fit channels wires) {t : ℕ} {channel channel' : Channel}
    (hchannel : channels[t]? = some channel)
    (hframe : ∀ wire, wire.1 ≠ .tunnel t → wires'.stage wire = wires.stage wire)
    (hfits : channel'.Fits t wires') : Fit (channels.set t channel') wires' := by
  have hlength : t < channels.length := (List.getElem?_eq_some_iff.mp hchannel).1
  have hother : ∀ t', t' ≠ t → ∀ socket,
      wires'.stage (.tunnel t', socket) = wires.stage (.tunnel t', socket) :=
    fun t' hne socket => hframe _ fun heq => hne (Thread.tunnel.inj heq)
  constructor
  · intro t' channel₁ hchannel₁
    by_cases heq : t' = t
    · subst heq
      rw [List.getElem?_set_self hlength] at hchannel₁
      rwa [← Option.some.inj hchannel₁]
    · rw [List.getElem?_set_ne (Ne.symm heq)] at hchannel₁
      obtain ⟨hgrip₁, hpump₁⟩ := h.tunnels t' channel₁ hchannel₁
      exact ⟨fun socket => by rw [hother t' heq]; exact hgrip₁ socket, hpump₁⟩
  · intro t' hnone socket
    have heq : t' ≠ t := by
      rintro rfl
      rw [List.getElem?_set_self hlength] at hnone
      cases hnone
    rw [List.getElem?_set_ne (Ne.symm heq)] at hnone
    rw [hother t' heq]
    exact h.beyond t' hnone socket

/-- A new tunnel has no socket yet. -/
theorem Fit.spawn {channels : List Channel} {wires : Tracked.State Wire}
    (h : Fit channels wires) : Fit (channels ++ [Channel.fresh]) wires where
  tunnels t channel hchannel := by
    rw [List.getElem?_append] at hchannel
    split at hchannel
    case isTrue => exact h.tunnels t channel hchannel
    case isFalse hlength =>
      have hnone := h.beyond t (List.getElem?_eq_none (Nat.le_of_not_lt hlength))
      rw [List.getElem?_singleton] at hchannel
      split at hchannel
      case isTrue =>
        obtain rfl := Option.some.inj hchannel
        refine ⟨fun socket => ?_, fun hpump => (hpump rfl).elim⟩
        rw [hnone]
        cases socket <;> rfl
      case isFalse => cases hchannel
  beyond t hnone := by
    rw [List.getElem?_eq_none_iff, List.length_append] at hnone
    exact h.beyond t (List.getElem?_eq_none (Nat.le_of_add_right_le hnone))

/-- What is true of a session in every state that it reaches. -/
structure Sound (s : WorkerSession) : Prop where
  kept : Kept s.wires
  ends : Ends s
  control : ∀ socket, s.control.grip socket (s.wires.stage (.control, socket)) = true
  fit : Fit s.channels s.wires
  permits : s.permits + s.running + s.control.permits + s.lost = 4
  /-- who has the monitor is still in the call -/
  holder : ∀ caller phase, s.monitor = some (caller, phase) → s.calls caller = true

/-- A session that was just constructed is sound: no socket was opened, and all four permits are
    free. -/
theorem init_sound : Sound init where
  kept := Tracked.init_kept
  ends := init_ends
  control socket := by cases socket <;> rfl
  fit := ⟨nofun, fun _ _ _ => rfl⟩
  permits := rfl
  holder _ _ h := by cases h

/-- A caller stays in its call while the threads go on. -/
theorem calls_mono {caller : Caller} (h : s.calls caller = true)
    (hcontrol : s.control = .failing → s'.control = .failing)
    (htunnels : ∀ (t : ℕ) (channel : Channel), s.channels[t]? = some channel →
      channel.tunnel = .failing → ∃ channel' : Channel, s'.channels[t]? = some channel' ∧
        channel'.tunnel = .failing)
    (hbeating : s.beating = true → s'.beating = true) : s'.calls caller = true := by
  unfold calls at h ⊢
  split at h
  case h_1 => exact decide_eq_true (hcontrol (of_decide_eq_true h))
  case h_2 t =>
    obtain ⟨channel, hchannel, hfailing⟩ := Option.map_eq_some_iff.mp (of_decide_eq_true h)
    obtain ⟨channel', hchannel', hfailing'⟩ := htunnels t channel hchannel hfailing
    exact decide_eq_true (Option.map_eq_some_iff.mpr ⟨channel', hchannel', hfailing'⟩)
  case h_3 => exact hbeating h
  case h_4 => rfl

/-- A note in the books does not stop the heartbeat. -/
theorem book_beating (s : WorkerSession) (books : Books) (h : s.beating = true) :
    (s.book books).beating = true := by
  cases books with
  | beat => rfl
  | _ => exact h

/-- The control thread keeps soundness, whether its call succeeds or fails. -/
theorem Sound.runControl (h : Sound s) {succeeds : Bool}
    (hs : s.runControl succeeds = some s') : Sound s' := by
  unfold WorkerSession.runControl at hs
  split at hs
  case h_1 => cases hs
  case h_2 move hmove =>
    split at hs
    case h_1 => cases hs
    case h_2 wires hperform =>
      obtain rfl := Option.some.inj hs
      obtain ⟨hclosed, hsweep, hhalted, hstage⟩ := perform_frame hperform
      -- the control thread has no access to the wires of a tunnel
      have hfit : Fit s.channels wires :=
        h.fit.congr fun t socket => (hstage _).trans (if_neg nofun)
      refine ⟨?_, ?_, ?_, ?_, ?_, ?_⟩
      · rw [book_wires]
        exact perform_kept h.kept hperform
      · refine h.ends.congr ?_ ?_ ?_ ?_ ?_ ?_ ?_ <;> simp [hclosed, hsweep, hhalted]
      · intro socket
        rw [book_control, book_wires, hstage, if_pos rfl]
        exact Control.next_grip hmove socket _ (h.control socket)
      · rw [book_wires]
        by_cases hspawn : move.books = .spawn
        · rw [hspawn]
          exact hfit.spawn
        · rw [book_channels _ hspawn]
          exact hfit
      · -- the permits, which the control thread takes and passes on
        have hpermits := h.permits
        rw [book_control]
        obtain ⟨hbooks | hbooks, heq⟩ | ⟨hbooks, hpermit, hbefore, hafter⟩ |
          ⟨⟨hbooks, -⟩ | hbooks, hbefore, hafter⟩ := Control.next_books hmove
        · rw [hbooks, heq]
          exact hpermits
        · rw [hbooks, heq]
          exact hpermits
        · -- it takes one for the tunnel that it is about to start
          have hpositive : 0 < s.permits := of_decide_eq_true hpermit
          rw [hbooks, hafter]
          show s.permits - 1 + s.running + 1 + s.lost = 4
          omega
        · -- the tunnel has it from here on
          have hrunning : (s.channels ++ [Channel.fresh]).map Channel.permits
              = s.channels.map Channel.permits ++ [1] := List.map_append ..
          rw [hbooks, hafter]
          show s.permits + ((s.channels ++ [Channel.fresh]).map Channel.permits).sum + 0
            + s.lost = 4
          rw [hrunning, List.sum_append, List.sum_singleton]
          rw [running] at hpermits
          omega
        · -- the executor has refused the tunnel, and its permit is lost
          rw [hbooks, hafter]
          show s.permits + s.running + 0 + (s.lost + 1) = 4
          omega
      · intro caller phase hmonitor
        rw [book_monitor] at hmonitor
        refine calls_mono (h.holder caller phase hmonitor) ?_ ?_
          (fun hbeating => book_beating _ _ hbeating)
        · -- while it fails it takes no step of its own
          intro hfailing
          rw [hfailing] at hmove
          cases hmove
        · intro t channel hchannel hfailing
          refine ⟨channel, ?_, hfailing⟩
          by_cases hspawn : move.books = .spawn
          · rw [hspawn]
            exact List.getElem?_append_left (List.getElem?_eq_some_iff.mp hchannel).1 ▸ hchannel
          · rw [book_channels _ hspawn]
            exact hchannel

/-- A tunnel keeps soundness, whether its call succeeds or fails. -/
theorem Sound.runTunnel (h : Sound s) {t : ℕ} {succeeds : Bool}
    (hs : s.runTunnel t succeeds = some s') : Sound s' := by
  unfold WorkerSession.runTunnel at hs
  split at hs
  case h_1 => cases hs
  case h_2 channel hchannel =>
    split at hs
    case h_1 => cases hs
    case h_2 move hmove =>
      split at hs
      case h_1 => cases hs
      case h_2 wires hperform =>
        obtain rfl := Option.some.inj hs
        obtain ⟨hclosed, hsweep, hhalted, hstage⟩ := perform_frame hperform
        obtain ⟨hgrip, hpump⟩ := h.fit.tunnels t channel hchannel
        obtain ⟨hbefore, hbooks⟩ := Tunnel.next_books hmove
        -- a tunnel starts no other tunnel
        have hspawn : move.books ≠ .spawn := by
          rintro heq
          rw [heq] at hbooks
          simp at hbooks
        refine ⟨?_, ?_, ?_, ?_, ?_, ?_⟩
        · rw [book_wires]
          exact perform_kept h.kept hperform
        · refine h.ends.congr ?_ ?_ ?_ ?_ ?_ ?_ ?_ <;> simp [hclosed, hsweep, hhalted]
        · intro socket
          have hother : wires.stage (.control, socket) = s.wires.stage (.control, socket) :=
            (hstage _).trans (if_neg fun heq => by cases heq)
          rw [book_control, book_wires, hother]
          exact h.control socket
        · rw [book_wires, book_channels _ hspawn]
          refine h.fit.set hchannel (fun wire hne => (hstage wire).trans (if_neg hne)) ⟨?_, ?_⟩
          · intro socket
            rw [hstage, if_pos rfl]
            exact Tunnel.next_grip hmove socket _ (hgrip socket)
          · intro hcopying
            refine Tunnel.next_launched hmove ?_
            by_cases hstarted : move.books = .pump
            · exact .inr hstarted
            · rw [if_neg hstarted] at hcopying
              exact .inl (hpump hcopying)
        · -- the permits: this tunnel still has its own
          have hpermits := h.permits
          have hset := fun channel' : Channel =>
            sum_map_set Channel.permits (b := channel') hchannel
          have hone : channel.permits = 1 := if_neg hbefore
          rw [hone] at hset
          rw [book_control]
          rw [running] at hpermits
          obtain ⟨hbooks | hbooks, hafter⟩ | ⟨hbooks, hafter⟩ := hbooks
          · -- it keeps its permit
            have hset := hset ⟨move.next, channel.pump⟩
            have hone' : Channel.permits ⟨move.next, channel.pump⟩ = 1 := if_neg hafter
            rw [hbooks]
            show s.permits + ((s.channels.set t ⟨move.next, channel.pump⟩).map _).sum
              + s.control.permits + s.lost = 4
            omega
          · -- it starts its second copy, which shares its permit
            have hset := hset ⟨move.next, .copying⟩
            have hone' : Channel.permits ⟨move.next, .copying⟩ = 1 := if_neg hafter
            rw [hbooks]
            show s.permits + ((s.channels.set t ⟨move.next, .copying⟩).map _).sum
              + s.control.permits + s.lost = 4
            omega
          · -- it ends, and gives its permit back
            have hset := hset ⟨move.next, channel.pump⟩
            have hone' : Channel.permits ⟨move.next, channel.pump⟩ = 0 := if_pos hafter
            rw [hbooks]
            show s.permits + 1 + ((s.channels.set t ⟨move.next, channel.pump⟩).map _).sum
              + s.control.permits + s.lost = 4
            omega
        · intro caller phase hmonitor
          rw [book_monitor] at hmonitor
          refine calls_mono (h.holder caller phase hmonitor) (fun hfailing => ?_) ?_
            (fun hbeating => book_beating _ _ hbeating)
          · rw [book_control]
            exact hfailing
          · -- the thread that is in the monitor takes no step of its own
            intro t' channel₁ hchannel₁ hfailing
            rw [book_channels _ hspawn]
            by_cases heq : t' = t
            · subst heq
              obtain rfl := Option.some.inj (hchannel.symm.trans hchannel₁)
              rw [hfailing] at hmove
              cases hmove
            · exact ⟨channel₁, (List.getElem?_set_ne (Ne.symm heq)).trans hchannel₁, hfailing⟩

/-- The second thread of a tunnel keeps soundness; it only reads and writes sockets that the tunnel
    holds. -/
theorem Sound.runPump (h : Sound s) {t : ℕ} (hs : s.runPump t = some s') : Sound s' := by
  unfold WorkerSession.runPump at hs
  split at hs
  case h_1 => cases hs
  case h_2 channel hchannel =>
    split at hs
    case h_1 => cases hs
    case h_2 access pump hnext =>
      split at hs
      case h_1 => cases hs
      case h_2 wires hperform =>
        obtain rfl := Option.some.inj hs
        obtain ⟨hclosed, hsweep, hhalted, hstage⟩ := perform_frame hperform
        -- it only closes, and its tunnel has launched it
        have hpump : channel.pump ≠ .idle ∧ ∀ socket stage,
            access.after s.wires.closed socket stage = stage := by
          cases hbefore : channel.pump with
          | copying =>
            rw [hbefore] at hnext
            obtain ⟨rfl, -⟩ := Prod.mk.inj (Option.some.inj hnext)
            exact ⟨nofun, fun _ _ => rfl⟩
          | closing =>
            rw [hbefore] at hnext
            obtain ⟨rfl, -⟩ := Prod.mk.inj (Option.some.inj hnext)
            exact ⟨nofun, fun _ _ => rfl⟩
          | idle | finished =>
            rw [hbefore] at hnext
            cases hnext
        have hsame : ∀ wire, wires.stage wire = s.wires.stage wire := by
          intro wire
          rw [hstage, hpump.2, ite_self]
        obtain ⟨hgrip, hlaunched⟩ := h.fit.tunnels t channel hchannel
        refine ⟨perform_kept h.kept hperform,
          h.ends.congr hclosed hsweep hhalted rfl rfl rfl rfl, ?_, ?_, ?_, ?_⟩
        · intro socket
          show s.control.grip socket (wires.stage _) = true
          rw [hsame]
          exact h.control socket
        · refine h.fit.set hchannel (fun wire _ => hsame wire)
            ⟨fun socket => ?_, fun _ => hlaunched hpump.1⟩
          rw [hsame]
          exact hgrip socket
        · have hset := sum_map_set Channel.permits (b := { channel with pump := pump }) hchannel
          have heq : Channel.permits { channel with pump := pump } = channel.permits := rfl
          have hpermits := h.permits
          rw [running] at hpermits
          show s.permits + ((s.channels.set t { channel with pump := pump }).map _).sum
            + s.control.permits + s.lost = 4
          omega
        · intro caller phase hmonitor
          refine calls_mono (h.holder caller phase hmonitor) id ?_ id
          intro t' channel₁ hchannel₁ hfailing
          by_cases heq : t' = t
          · subst heq
            obtain rfl := Option.some.inj (hchannel.symm.trans hchannel₁)
            exact ⟨_, List.getElem?_set_self (List.getElem?_eq_some_iff.mp hchannel).1, hfailing⟩
          · exact ⟨channel₁, (List.getElem?_set_ne (Ne.symm heq)).trans hchannel₁, hfailing⟩

/-- A caller whose failure is dealt with goes on. -/
theorem Sound.resume {caller : Caller} (h : Sound s) (hmonitor : s.monitor = none)
    (hcalls : s.calls caller = true) : Sound (s.resume caller) := by
  have hends : Ends (s.resume caller) := by
    refine h.ends.congr ?_ ?_ ?_ ?_ ?_ ?_ ?_ <;> simp
  -- the monitor is free, so nobody is in it
  have hholder : ∀ caller' phase, (s.resume caller).monitor = some (caller', phase) →
      (s.resume caller).calls caller' = true := by
    intro caller' phase heq
    rw [resume_monitor, hmonitor] at heq
    cases heq
  cases caller with
  | heartbeat => exact h
  | stop => exact h
  | thread thread =>
    cases thread with
    | control =>
      -- the control thread comes back from its failure
      have hfailing : s.control = .failing := of_decide_eq_true hcalls
      refine ⟨h.kept, hends, fun socket => ?_, h.fit, ?_, hholder⟩
      · have hgrip := h.control socket
        rw [hfailing] at hgrip
        cases socket <;> exact hgrip
      · have hpermits := h.permits
        rw [hfailing] at hpermits
        exact hpermits
    | tunnel t =>
      -- and so does a tunnel, which keeps its permit
      obtain ⟨channel, hchannel, hfailing⟩ := Option.map_eq_some_iff.mp (of_decide_eq_true hcalls)
      obtain ⟨hgrip, hlaunched⟩ := h.fit.tunnels t channel hchannel
      have hresume : s.resume (.thread (.tunnel t)) =
          { s with channels := s.channels.set t { channel with tunnel := .leaving } } := by
        simp only [WorkerSession.resume, hchannel]
      rw [hresume] at hends hholder ⊢
      refine ⟨h.kept, hends, h.control, ?_, ?_, hholder⟩
      · refine h.fit.set hchannel (fun _ _ => rfl) ⟨fun socket => ?_, fun _ => rfl⟩
        have hgrip := hgrip socket
        rw [hfailing] at hgrip
        exact hgrip
      · have hset := sum_map_set Channel.permits (b := { channel with tunnel := .leaving }) hchannel
        have hbefore : channel.permits = 1 := if_neg (by rw [hfailing]; nofun)
        have hafter : Channel.permits { channel with tunnel := .leaving } = 1 := rfl
        have hpermits := h.permits
        rw [running] at hpermits
        show s.permits + ((s.channels.set t { channel with tunnel := .leaving }).map _).sum
          + s.control.permits + s.lost = 4
        omega

/-- Who enters `halt` takes the monitor, which was free. -/
theorem Sound.enter {caller : Caller} (h : Sound s) (hs : s.enter caller = some s') :
    Sound s' := by
  unfold WorkerSession.enter at hs
  split at hs
  case h_1 => cases hs
  case h_2 hmonitor =>
    split at hs
    case isFalse => cases hs
    case isTrue hcalls =>
      split at hs
      case isTrue hstop =>
        obtain rfl := Option.some.inj hs
        have hends := h.ends.enter caller hmonitor (fun hne => absurd hstop hne)
        have hasked : (s.requested || (decide (caller = Caller.stop) && !s.wires.closed))
            = (s.requested || !s.wires.closed) := by rw [decide_eq_true hstop, Bool.true_and]
        rw [hasked] at hends
        refine ⟨h.kept, hends, h.control, h.fit, h.permits, fun caller' phase heq => ?_⟩
        obtain ⟨rfl, -⟩ := Prod.mk.inj (Option.some.inj heq)
        exact hcalls
      case isFalse hstop =>
        split at hs
        case isTrue =>
          obtain rfl := Option.some.inj hs
          exact h.resume hmonitor hcalls
        case isFalse hopen =>
          obtain rfl := Option.some.inj hs
          have hends := h.ends.enter caller hmonitor
            (fun _ => Bool.eq_false_iff.mpr hopen)
          have hasked : (s.requested || (decide (caller = Caller.stop) && !s.wires.closed))
              = s.requested := by rw [decide_eq_false hstop, Bool.false_and, Bool.or_false]
          rw [hasked] at hends
          refine ⟨h.kept, hends, h.control, h.fit, h.permits, fun caller' phase heq => ?_⟩
          obtain ⟨rfl, -⟩ := Prod.mk.inj (Option.some.inj heq)
          exact hcalls

/-- The holder of the monitor moves only the sweep. -/
theorem Sound.swept (h : Sound s) {event : Tracked.Event Wire} {wires : Tracked.State Wire}
    (hstep : Tracked.step s.wires event = some wires) (hsweeps : event.sweeps = true)
    (hends : Ends s') (hwires : s'.wires = wires) (hcontrol : s'.control = s.control)
    (hchannels : s'.channels = s.channels) (hpermits : s'.permits = s.permits)
    (hlost : s'.lost = s.lost)
    (hholder : ∀ caller phase, s'.monitor = some (caller, phase) → s'.calls caller = true) :
    Sound s' := by
  obtain ⟨hstage, -⟩ := Tracked.sweep_frame hstep hsweeps
  refine ⟨?_, hends, ?_, ?_, ?_, hholder⟩
  · rw [hwires]
    exact h.kept.step hstep
  · rw [hwires, hcontrol, hstage]
    exact h.control
  · rw [hwires, hchannels]
    exact h.fit.congr fun t socket => congrFun hstage _
  · rw [running, hpermits, hchannels, hcontrol, hlost]
    exact h.permits

/-- Closing what `halt` finds keeps soundness: a socket that is closed is no thread's any more. -/
theorem Sound.sweep (h : Sound s) {event : Tracked.Event Wire} (hsweeps : event.sweeps = true)
    (hs : s.sweep event = some s') : Sound s' := by
  unfold WorkerSession.sweep at hs
  split at hs
  case h_2 => cases hs
  case h_1 caller hmonitor =>
    obtain ⟨wires, hstep, rfl⟩ := Option.map_eq_some_iff.mp hs
    obtain ⟨-, hhalted, -⟩ := Tracked.sweep_frame hstep hsweeps
    exact h.swept hstep hsweeps
      (h.ends.sweep hmonitor (Tracked.step_stage hstep).1 hhalted) rfl rfl rfl rfl rfl h.holder

/-- Once `halt` has closed what it found, every socket that is opened later is closed at once. -/
theorem Sound.closed (h : Sound s) (hhalted : s.wires.halted = true) : s.wires.closed = true := by
  cases hclosed : s.wires.closed with
  | true => rfl
  | false =>
    rw [(h.kept.flagged hclosed).2] at hhalted
    cases hhalted

/-- **One step.**  Whatever happens next, a sound session stays sound. -/
theorem Sound.step (h : Sound s) {event : Event} (hs : s.step event = some s') : Sound s' := by
  cases event with
  | control succeeds => exact h.runControl hs
  | tunnel t succeeds => exact h.runTunnel hs
  | pump t => exact h.runPump hs
  | enter caller => exact h.enter hs
  | flag => exact h.sweep rfl hs
  | begin => exact h.sweep rfl hs
  | visit wire => exact h.sweep rfl hs
  | finish => exact h.sweep rfl hs
  | clear =>
    simp only [WorkerSession.step] at hs
    split at hs
    case h_2 => cases hs
    case h_1 caller hmonitor =>
      obtain ⟨wires, hstep, rfl⟩ := Option.map_eq_some_iff.mp hs
      obtain ⟨-, -, hclear⟩ := Tracked.sweep_frame hstep rfl
      obtain ⟨hhalted, hidle⟩ := hclear rfl
      have hkept := h.kept.step hstep
      -- the pass was made, and only a closed session makes one
      have hclosed : wires.closed = true := by
        cases hclosed : wires.closed with
        | true => rfl
        | false =>
          rw [(hkept.flagged hclosed).2] at hhalted
          cases hhalted
      refine h.swept hstep rfl
        (h.ends.phase hmonitor hclosed hidle hhalted (fun heq => by cases heq))
        rfl rfl rfl rfl rfl fun caller' phase heq => ?_
      obtain ⟨rfl, -⟩ := Prod.mk.inj (Option.some.inj heq)
      exact h.holder _ _ hmonitor
  | stopClock =>
    simp only [WorkerSession.step] at hs
    split at hs
    case h_2 => cases hs
    case h_1 caller hmonitor =>
      obtain rfl := Option.some.inj hs
      -- the pass is behind the caller by now
      have hhalted := h.ends.halted caller _ hmonitor nofun
      have hidle := h.ends.idle fun caller' heq => by rw [hmonitor] at heq; cases heq
      refine ⟨h.kept, h.ends.phase hmonitor (h.closed hhalted) hidle hhalted nofun, h.control,
        h.fit, h.permits, fun caller' phase heq => ?_⟩
      obtain ⟨rfl, -⟩ := Prod.mk.inj (Option.some.inj heq)
      exact h.holder _ _ hmonitor
  | stopPool =>
    simp only [WorkerSession.step] at hs
    split at hs
    case h_2 => cases hs
    case h_1 caller hmonitor =>
      obtain rfl := Option.some.inj hs
      have hhalted := h.ends.halted caller _ hmonitor nofun
      -- no pass is under way outside of `closing`
      have hidle := h.ends.idle fun caller' heq => by rw [hmonitor] at heq; cases heq
      refine ⟨h.kept, h.ends.phase hmonitor (h.closed hhalted) hidle hhalted (fun _ => rfl),
        h.control, h.fit, h.permits, fun caller' phase heq => ?_⟩
      obtain ⟨rfl, -⟩ := Prod.mk.inj (Option.some.inj heq)
      exact h.holder _ _ hmonitor
  | leave =>
    simp only [WorkerSession.step] at hs
    split at hs
    case h_2 => cases hs
    case h_1 caller hmonitor =>
      obtain rfl := Option.some.inj hs
      have hhalted := h.ends.halted caller _ hmonitor nofun
      -- the caller leaves the monitor first, and then goes on
      have hleft : Sound { s with
          monitor := none, ended := if caller = Caller.stop then s.ended else s.ended + 1 } :=
        ⟨h.kept, h.ends.leave hmonitor (h.closed hhalted), h.control, h.fit, h.permits,
          fun _ _ heq => by cases heq⟩
      exact hleft.resume rfl (h.holder _ _ hmonitor)

/-! ### The monitor -/

/-- While sockets are closed the monitor stays with its holder, and the listener hears nothing. -/
theorem sweep_monitor {swept : Tracked.Event Wire} (hs : s.sweep swept = some s') :
    s'.monitor = s.monitor ∧ s'.ended = s.ended := by
  unfold WorkerSession.sweep at hs
  split at hs
  case h_2 => cases hs
  case h_1 =>
    obtain ⟨wires, -, rfl⟩ := Option.map_eq_some_iff.mp hs
    exact ⟨rfl, rfl⟩

/-- Somebody enters, or the holder goes on, or it leaves and counts an end if it has failed. -/
theorem step_monitor {event : Event} (hs : s.step event = some s') :
    (s'.monitor = s.monitor ∧ s'.ended = s.ended) ∨
      (∃ caller, event = .enter caller ∧ s.monitor = none ∧
        s'.monitor = some (caller, .closing) ∧ (caller ≠ .stop → s.wires.closed = false) ∧
        s'.ended = s.ended) ∨
      (∃ caller phase phase', s.monitor = some (caller, phase) ∧
        s'.monitor = some (caller, phase') ∧ s'.ended = s.ended) ∨
      (∃ caller, s.monitor = some (caller, .done) ∧ s'.monitor = none ∧
        s'.ended = if caller = .stop then s.ended else s.ended + 1) := by
  cases event with
  | control succeeds =>
    simp only [WorkerSession.step, WorkerSession.runControl] at hs
    split at hs
    case h_1 => cases hs
    case h_2 =>
      split at hs
      case h_1 => cases hs
      case h_2 =>
        -- what a thread does by itself does not concern the monitor
        obtain rfl := Option.some.inj hs
        exact .inl ⟨book_monitor .., book_ended ..⟩
  | tunnel t succeeds =>
    simp only [WorkerSession.step, WorkerSession.runTunnel] at hs
    split at hs
    case h_1 => cases hs
    case h_2 =>
      split at hs
      case h_1 => cases hs
      case h_2 =>
        split at hs
        case h_1 => cases hs
        case h_2 =>
          obtain rfl := Option.some.inj hs
          exact .inl ⟨book_monitor .., book_ended ..⟩
  | pump t =>
    simp only [WorkerSession.step, WorkerSession.runPump] at hs
    split at hs
    case h_1 => cases hs
    case h_2 =>
      split at hs
      case h_1 => cases hs
      case h_2 =>
        split at hs
        case h_1 => cases hs
        case h_2 =>
          obtain rfl := Option.some.inj hs
          exact .inl ⟨rfl, rfl⟩
  | enter caller =>
    simp only [WorkerSession.step, WorkerSession.enter] at hs
    split at hs
    case h_1 => cases hs
    case h_2 hmonitor =>
      split at hs
      case isFalse => cases hs
      case isTrue =>
        split at hs
        case isTrue hstop =>
          obtain rfl := Option.some.inj hs
          exact .inr (.inl ⟨caller, rfl, hmonitor, rfl, fun hne => absurd hstop hne, rfl⟩)
        case isFalse =>
          by_cases hclosed : s.wires.closed = true
          · -- closed before: the caller returns at once
            rw [if_pos hclosed] at hs
            obtain rfl := Option.some.inj hs
            exact .inl ⟨resume_monitor .., resume_ended ..⟩
          · -- the first caller closes the session
            rw [if_neg hclosed] at hs
            obtain rfl := Option.some.inj hs
            exact .inr (.inl ⟨caller, rfl, hmonitor, rfl, fun _ => Bool.eq_false_iff.mpr hclosed,
              rfl⟩)
  | flag => exact .inl (sweep_monitor hs)
  | begin => exact .inl (sweep_monitor hs)
  | visit wire => exact .inl (sweep_monitor hs)
  | finish => exact .inl (sweep_monitor hs)
  | clear =>
    simp only [WorkerSession.step] at hs
    split at hs
    case h_2 => cases hs
    case h_1 caller hmonitor =>
      obtain ⟨wires, -, rfl⟩ := Option.map_eq_some_iff.mp hs
      exact .inr (.inr (.inl ⟨caller, _, _, hmonitor, rfl, rfl⟩))
  | stopClock | stopPool =>
    simp only [WorkerSession.step] at hs
    split at hs
    case h_2 => cases hs
    case h_1 caller hmonitor =>
      obtain rfl := Option.some.inj hs
      exact .inr (.inr (.inl ⟨caller, _, _, hmonitor, rfl, rfl⟩))
  | leave =>
    simp only [WorkerSession.step] at hs
    split at hs
    case h_2 => cases hs
    case h_1 caller hmonitor =>
      obtain rfl := Option.some.inj hs
      exact .inr (.inr (.inr ⟨caller, hmonitor, resume_monitor .., resume_ended ..⟩))

/-! ### Once the flag is set -/

/-- After `halt` a thread does not come to hold a socket that it did not hold before. -/
theorem after_held {access : Access} {socket : Socket} {stage : Stage}
    (h : access.after true socket stage = .held) : stage = .held := by
  cases access with
  | nothing | io | close => exact h
  | create moved | register moved | check moved | discard moved | release moved =>
    simp only [Access.after] at h
    split at h
    · cases h
    · exact h
  | drop moved =>
    simp only [Access.after] at h
    split at h
    · split at h
      · cases h
      · exact h
    · exact h

/-- After `halt` no access makes a socket held, and the session stays halted. -/
theorem perform_held {thread : Thread} {access : Access} {wires wires' : Tracked.State Wire}
    (h : access.perform thread wires = some wires') (hclosed : wires.closed = true) :
    wires'.closed = true ∧ ∀ wire, wires'.stage wire = .held → wires.stage wire = .held := by
  obtain ⟨hflag, -, -, hstage⟩ := perform_frame h
  refine ⟨hflag.trans hclosed, fun wire hheld => ?_⟩
  rw [hstage, hclosed] at hheld
  split at hheld
  · exact after_held hheld
  · exact hheld

/-- It stays set, and no socket comes into use. -/
theorem closed_step {event : Event} (hs : s.step event = some s')
    (hclosed : s.wires.closed = true) :
    s'.wires.closed = true ∧ ∀ wire, s'.wires.stage wire = .held → s.wires.stage wire = .held := by
  have hsweep : ∀ {swept : Tracked.Event Wire}, s.sweep swept = some s' →
      s'.wires.closed = true ∧
        ∀ wire, s'.wires.stage wire = .held → s.wires.stage wire = .held := by
    intro swept hs
    unfold WorkerSession.sweep at hs
    split at hs
    case h_2 => cases hs
    case h_1 =>
      obtain ⟨wires, hstep, rfl⟩ := Option.map_eq_some_iff.mp hs
      exact Tracked.closed_step hstep hclosed
  cases event with
  | control succeeds =>
    simp only [WorkerSession.step, runControl] at hs
    split at hs
    case h_1 => cases hs
    case h_2 =>
      split at hs
      case h_1 => cases hs
      case h_2 wires hperform =>
        obtain rfl := Option.some.inj hs
        rw [book_wires]
        exact perform_held hperform hclosed
  | tunnel t succeeds =>
    simp only [WorkerSession.step, runTunnel] at hs
    split at hs
    case h_1 => cases hs
    case h_2 =>
      split at hs
      case h_1 => cases hs
      case h_2 =>
        split at hs
        case h_1 => cases hs
        case h_2 wires hperform =>
          obtain rfl := Option.some.inj hs
          rw [book_wires]
          exact perform_held hperform hclosed
  | pump t =>
    simp only [WorkerSession.step, runPump] at hs
    split at hs
    case h_1 => cases hs
    case h_2 =>
      split at hs
      case h_1 => cases hs
      case h_2 =>
        split at hs
        case h_1 => cases hs
        case h_2 wires hperform =>
          obtain rfl := Option.some.inj hs
          exact perform_held hperform hclosed
  | enter caller =>
    have hwires : s'.wires = s.wires := by
      simp only [WorkerSession.step, WorkerSession.enter] at hs
      split at hs
      case h_1 => cases hs
      case h_2 =>
        split at hs
        case isFalse => cases hs
        case isTrue =>
          split at hs
          case isTrue => obtain rfl := Option.some.inj hs; rfl
          case isFalse =>
            -- a failure after the first
            obtain rfl := Option.some.inj hs
            exact resume_wires ..
    rw [hwires]
    exact ⟨hclosed, fun _ => id⟩
  | flag => exact hsweep hs
  | begin => exact hsweep hs
  | visit wire => exact hsweep hs
  | finish => exact hsweep hs
  | clear =>
    simp only [WorkerSession.step] at hs
    split at hs
    case h_2 => cases hs
    case h_1 =>
      obtain ⟨wires, hstep, rfl⟩ := Option.map_eq_some_iff.mp hs
      exact Tracked.closed_step hstep hclosed
  | stopClock | stopPool =>
    simp only [WorkerSession.step] at hs
    split at hs
    case h_2 => cases hs
    case h_1 =>
      obtain rfl := Option.some.inj hs
      exact ⟨hclosed, fun _ => id⟩
  | leave =>
    simp only [WorkerSession.step] at hs
    split at hs
    case h_2 => cases hs
    case h_1 =>
      obtain rfl := Option.some.inj hs
      rw [resume_wires]
      exact ⟨hclosed, fun _ => id⟩

/-! ### The theorem -/

/-- A run of a session from its construction, with the events in their order. -/
abbrev Run (events : List Event) (s : WorkerSession) : Prop :=
  Trace (fun s event s' => s.step event = some s') init events s

/-- Every state that a run reaches is sound, by induction over its events. -/
theorem Run.sound {events : List Event} (h : Run events s) : Sound s :=
  h.invariant (I := fun _ s => Sound s) init_sound fun _ _ _ _ _ hsound hs => hsound.step hs

/-- A socket that is gone is not open, so nobody can use it. -/
theorem gone_not_open (h : Kept s.wires) {wire : Wire} (hgone : gone (s.wires.stage wire) = true) :
    s.wires.isOpen wire = false := by
  cases hopen : s.wires.isOpen wire with
  | false => rfl
  | true =>
    obtain ⟨habsent, hreleased⟩ := h.owned wire hopen
    simp [gone, habsent, hreleased] at hgone

/-- **The end of a session**, in every run of its threads.  The listener hears of one end, and of
    none that was asked for.  Four permits are all there are, and a tunnel that has come to its end
    leaves no socket open.  Once the flag is set no socket comes into use, and once `halt` is
    through with them no socket in use is open. -/
theorem session_shutdown {events : List Event} (h : Run events s) :
    (s.ended ≤ 1 ∧ (s.requested = true → s.ended = 0)) ∧
      s.permits + s.running + s.control.permits + s.lost = 4 ∧
      (∀ (t : ℕ) (channel : Channel), s.channels[t]? = some channel → channel.tunnel = .finished →
        ∀ socket, s.wires.isOpen (.tunnel t, socket) = false) ∧
      (s.wires.closed = true → ∀ event s', s.step event = some s' → s'.wires.closed = true ∧
        ∀ wire, s'.wires.stage wire = .held → s.wires.stage wire = .held) ∧
      (s.wires.halted = true → ∀ wire, s.wires.isOpen wire = true →
        s.wires.stage wire = .created ∨ s.wires.stage wire = .registering ∨
          s.wires.stage wire = .refused) := by
  have hsound := h.sound
  refine ⟨⟨hsound.ends.once, hsound.ends.requested⟩, hsound.permits, ?_,
    fun hclosed event s' hs => closed_step hs hclosed,
    fun hhalted wire hopen => hsound.kept.not_held hhalted hopen⟩
  intro t channel hchannel hover socket
  have hgrip := (hsound.fit.tunnels t channel hchannel).1 socket
  rw [hover] at hgrip
  exact gone_not_open hsound.kept hgrip

/-- A tunnel is asked for, and then `stop` comes. -/
def stopped : List Event :=
  List.replicate 9 (.control true) ++
    [.enter .stop, .flag, .begin, .visit (.control, .tls), .finish, .clear, .stopClock, .stopPool,
      .leave]

/-- In a run in which `stop` is called the session ends halted, and the listener was not told of an
    end. -/
theorem session_shutdown_stopped : ∃ s, Run stopped s ∧ s.wires.halted = true ∧ s.ended = 0 := by
  have hresult : (stopped.foldlM (fun s event => step s event) init).map
      (fun s => (s.wires.halted, s.requested)) = some (true, true) := by decide
  obtain ⟨s, hs, hpair⟩ := Option.map_eq_some_iff.mp hresult
  obtain ⟨hhalted, hrequested⟩ := Prod.mk.inj hpair
  have hrun : Run stopped s := Trace.of_foldlM hs
  exact ⟨s, hrun, hhalted, (session_shutdown hrun).1.2 hrequested⟩

end WorkerSession

end ShareCompute.App
