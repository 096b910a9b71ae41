import ShareCompute.App.SessionWindDown

namespace ShareCompute.App

open ShareCompute.Library

/-!
# The Android service

`WorkerService.java` on its main thread, over the sessions that it makes.  The sessions run on
their own threads and post what they have to say; by the time a message is handled its session may
have been stopped, and another one may be there.  `session.stop()` waits for the monitor of the
session, so the main thread is in it while the session's threads go on.

* `WorkerService` — the fields of the service, the sessions so far, and the main thread's queue.
* `step` — a step of a session, something posted, or a callback on the main thread.
* `Kept` — what holds between two steps.
* `service_law` — one session at most is on; locks, notification and ticks are there for it only;
  and a session that has failed does not stay.
-/

namespace WorkerService

/-- What the user is shown in the notification and on the screen. -/
inductive Status
  | ready
  | connecting
  | update (session : ℕ)
  | ended (session : ℕ)
  | nativeExited
  | startFailed
  | disconnected
deriving DecidableEq

/-- What was posted to the main thread. -/
inductive Message
  | update (session : ℕ)
  | ended (session : ℕ)
  | nativeExit
deriving DecidableEq

/-- What comes after `session.stop()` and `session = null`. -/
inductive After
  /-- the rest of `onStartCommand`; whether nothing in it throws -/
  | start (succeeds : Bool)
  | shutdown (status : Status)
  | destroy
deriving DecidableEq

/-- What can happen in the app: a step of a session, a message that is posted, or the main thread
    going on. -/
inductive Event
  | session (session : ℕ) (event : WorkerSession.Event)
  /-- a session calls `listener.update` -/
  | update (session : ℕ)
  /-- the native worker returns -/
  | nativeExit
  /-- `onCreate` -/
  | create
  /-- `onStartCommand`, with a pairing code -/
  | start (succeeds : Bool)
  /-- `onStartCommand`, to stop -/
  | stop
  /-- `onDestroy` -/
  | destroy
  /-- the next message is handled -/
  | message
  /-- `tick` -/
  | tick
  /-- the wake lock's timeout -/
  | lockTimeout
  /-- the main thread gets the monitor of the session it stops -/
  | enterStop
  /-- `session.stop()` returns -/
  | returnStop

end WorkerService

/-- The fields of the service, and what is on its way to the main thread. -/
structure WorkerService where
  /-- all there have been -/
  sessions : List WorkerSession
  /-- `instance` -/
  alive : Bool
  session : Option ℕ
  foreground : Bool
  /-- the wake lock is held -/
  locked : Bool
  ticking : Bool
  /-- how often `tick` is in the queue -/
  ticks : ℕ
  status : WorkerService.Status
  posted : List WorkerService.Message
  /-- the main thread is in `session.stop()`, and has got the monitor -/
  stopping : Option (WorkerService.After × Bool)

namespace WorkerService

/-- A service that was not created yet. -/
def init : WorkerService where
  sessions := []
  alive := false
  session := none
  foreground := false
  locked := false
  ticking := false
  ticks := 0
  status := .ready
  posted := []
  stopping := none

/-- The rest of `shutdown`, once no session is left: the locks and the foreground are given up. -/
def afterShutdown (self : WorkerService) (status : Status) : WorkerService :=
  { self with locked := false, foreground := false, status := status }

/-- The ticks are started, unless they are already there. -/
def startTicking (self : WorkerService) : WorkerService :=
  if self.ticking then self else { self with ticking := true, ticks := self.ticks + 1 }

/-- The ticks are stopped, and none of them is left in the queue. -/
def stopTicking (self : WorkerService) : WorkerService := { self with ticking := false, ticks := 0 }

/-- What comes after `endSession`, in the callback that called it. -/
def goOn (self : WorkerService) : After → WorkerService
  | .start true =>
      { self with
        locked := true
        sessions := self.sessions ++ [.init]
        session := some self.sessions.length
        status := .connecting : WorkerService }.startTicking
  -- `shutdown` ends no session here
  | .start false => self.afterShutdown .startFailed
  | .shutdown status => self.afterShutdown status
  | .destroy => { self with locked := false, foreground := false, alive := false }

/-- `endSession`, up to where it waits for the session. -/
def endSession (self : WorkerService) (after : After) : WorkerService :=
  let self := self.stopTicking
  match self.session with
  | none => self.goOn after
  | some _ => { self with stopping := some (after, false) }

/-- The session is over: locks and ticks are given up, and the status is shown. -/
def shutdown (self : WorkerService) (status : Status) : WorkerService :=
  self.endSession (.shutdown status)

/-- A message is handled: one of a session that is not there any more does nothing. -/
def handle (self : WorkerService) : Message → WorkerService
  | .update session =>
      if self.session = some session then { self with status := .update session } else self
  | .ended session => if self.session = some session then self.shutdown (.ended session) else self
  | .nativeExit => if self.alive then self.shutdown .nativeExited else self

/-- A session's thread goes on; `fail` posts the end. -/
def runSession (self : WorkerService) (i : ℕ) (event : WorkerSession.Event) :
    Option WorkerService :=
  match self.sessions[i]? with
  | none => none
  | some session =>
      (session.step event).map fun session' =>
        { self with
          sessions := self.sessions.set i session'
          posted :=
            if session.ended < session'.ended then self.posted ++ [.ended i] else self.posted }

/-- A callback on the main thread, when it is in none. -/
def onMain (self : WorkerService) (callback : WorkerService) : Option WorkerService :=
  if self.stopping = none then some callback else none

/-- One step of the app; none where nobody can take it. -/
def step (self : WorkerService) : Event → Option WorkerService
  -- only the main thread calls `stop`
  | .session _ (.enter .stop) => none
  | .session i event => self.runSession i event
  | .update i =>
      if i < self.sessions.length then some { self with posted := self.posted ++ [.update i] }
      else none
  | .nativeExit => some { self with posted := self.posted ++ [.nativeExit] }
  | .create => if self.alive then none else self.onMain { self with alive := true }
  | .start succeeds =>
      if self.alive then
        self.onMain ({ self with foreground := true }.endSession (.start succeeds))
      else none
  | .stop => if self.alive then self.onMain (self.shutdown .disconnected) else none
  | .destroy => if self.alive then self.onMain (self.endSession .destroy) else none
  | .message =>
      match self.posted with
      | [] => none
      | message :: rest => self.onMain ({ self with posted := rest }.handle message)
  | .tick =>
      if 0 < self.ticks then
        self.onMain
          { self with ticks := if self.ticking then self.ticks - 1 + 1 else self.ticks - 1 }
      else none
  | .lockTimeout => some { self with locked := false }
  | .enterStop =>
      match self.stopping, self.session with
      | some (after, false), some i =>
          match self.sessions[i]? with
          | none => none
          | some session =>
              (session.enter .stop).map fun session' =>
                { self with
                  sessions := self.sessions.set i session', stopping := some (after, true) }
      | _, _ => none
  | .returnStop =>
      match self.stopping, self.session with
      | some (after, true), some i =>
          match self.sessions[i]? with
          | none => none
          | some session =>
              if session.monitor = none then
                some ({ self with session := none, stopping := none }.goOn after)
              else none
      | _, _ => none

/-! ### A session that was stopped -/

/-- Nobody ends it any more: its threads are left to wind down. -/
structure Over (session : WorkerSession) : Prop where
  closed : session.wires.closed = true
  monitor : session.monitor = none
  poolUp : session.poolUp = false

/-- Nothing but another `stop` would change that. -/
theorem Over.step {session session' : WorkerSession} {event : WorkerSession.Event}
    (h : Over session) (hsound : WorkerSession.Sound session)
    (hs : session.step event = some session') (hstop : event ≠ .enter .stop) :
    Over session' := by
  refine ⟨(WorkerSession.closed_step hs h.closed).1, ?_,
    (WorkerSession.work_step hsound hs h.poolUp).1⟩
  obtain ⟨hmonitor, -⟩ | ⟨caller, rfl, -, -, hopen, -⟩ | ⟨caller, phase, phase', hholder, -⟩ |
    ⟨caller, hholder, -⟩ := WorkerSession.step_monitor hs
  · exact hmonitor.trans h.monitor
  · by_cases heq : caller = .stop
    · exact absurd (congrArg WorkerSession.Event.enter heq) hstop
    · have hfalse := hopen heq
      rw [h.closed] at hfalse
      cases hfalse
  · rw [h.monitor] at hholder
    cases hholder
  · rw [h.monitor] at hholder
    cases hholder

/-- A session that the main thread stops is being stopped, or has been. -/
theorem stop_step {session session' : WorkerSession} {event : WorkerSession.Event}
    (h : (∃ phase, session.monitor = some (.stop, phase)) ∨ Over session)
    (hsound : WorkerSession.Sound session) (hs : session.step event = some session')
    (hstop : event ≠ .enter .stop) :
    (∃ phase, session'.monitor = some (.stop, phase)) ∨ Over session' := by
  obtain ⟨phase, hphase⟩ | hover := h
  · obtain ⟨hmonitor, -⟩ | ⟨caller, -, hnone, -⟩ | ⟨caller, before, phase', hbefore, hafter, -⟩ |
      ⟨caller, hdone, hnone, -⟩ := WorkerSession.step_monitor hs
    · exact .inl ⟨phase, hmonitor.trans hphase⟩
    · rw [hphase] at hnone
      cases hnone
    · rw [hphase] at hbefore
      obtain ⟨rfl, -⟩ := Prod.mk.inj (Option.some.inj hbefore)
      exact .inl ⟨phase', hafter⟩
    · -- it leaves once the pool is shut down
      have hsound' := hsound.step hs
      have hdown := hsound.ends.done caller hdone
      have hdown' := (WorkerSession.work_step hsound hs hdown).1
      exact .inr ⟨hsound'.closed (hsound'.ends.poolDown hdown'), hnone, hdown'⟩
  · exact .inr (hover.step hsound hs hstop)

/-! ### What holds between two steps -/

variable {s s' : WorkerService}

/-- What holds of the service between two steps. -/
structure Kept (s : WorkerService) : Prop where
  reached : ∀ (i : ℕ) (session : WorkerSession), s.sessions[i]? = some session →
    ∃ events, WorkerSession.Run events session
  stale : ∀ (i : ℕ) (session : WorkerSession), s.sessions[i]? = some session →
    s.session ≠ some i → Over session
  known : ∀ i, s.session = some i → i < s.sessions.length ∧ s.alive = true
  stopping : ∀ after entered, s.stopping = some (after, entered) → s.session ≠ none ∧
    s.ticking = false ∧ (∀ succeeds, after = .start succeeds → s.foreground = true)
  entered : ∀ (after : After) (i : ℕ) (session : WorkerSession),
    s.stopping = some (after, true) → s.session = some i → s.sessions[i]? = some session →
      (∃ phase, session.monitor = some (.stop, phase)) ∨ Over session
  resting : s.stopping = none → s.foreground = s.session.isSome ∧ s.ticking = s.session.isSome
  ticks : s.ticks = if s.ticking then 1 else 0
  locked : s.stopping = none → s.locked = true → s.session.isSome = true
  /-- of a failure the main thread will hear -/
  posted : ∀ (i : ℕ) (session : WorkerSession), s.stopping = none → s.session = some i →
    s.sessions[i]? = some session → session.ended = 1 → .ended i ∈ s.posted

/-- Before the service was created there are no sessions, so everything holds. -/
theorem init_kept : Kept init where
  reached _ _ h := by cases h
  stale _ _ h := by cases h
  known _ h := by cases h
  stopping _ _ h := by cases h
  entered _ _ _ h := by cases h
  resting _ := ⟨rfl, rfl⟩
  ticks := rfl
  locked _ h := by cases h
  posted _ _ _ h := by cases h

/-- The service goes on without a session. -/
theorem Kept.goOn {after : After} (hreached : ∀ (i : ℕ) (session : WorkerSession),
      s.sessions[i]? = some session → ∃ events, WorkerSession.Run events session)
    (hover : ∀ (i : ℕ) (session : WorkerSession), s.sessions[i]? = some session → Over session)
    (hsession : s.session = none) (hstopping : s.stopping = none) (hticking : s.ticking = false)
    (hticks : s.ticks = 0) (halive : s.alive = true)
    (hforeground : ∀ succeeds, after = .start succeeds → s.foreground = true) :
    Kept (s.goOn after) := by
  have hnone : ∀ {t : WorkerService}, t.sessions = s.sessions → t.session = none →
      t.stopping = none → t.ticking = false → t.ticks = 0 → t.foreground = false →
      t.locked = false → Kept t := by
    intro t hsessions htsession htstopping htticking htticks htforeground htlocked
    refine ⟨?_, ?_, ?_, ?_, ?_, ?_, ?_, ?_, ?_⟩
    · rw [hsessions]
      exact hreached
    · rw [hsessions]
      exact fun i session hi _ => hover i session hi
    · intro i hi
      rw [htsession] at hi
      cases hi
    · intro after entered hi
      rw [htstopping] at hi
      cases hi
    · intro after i session hi
      rw [htstopping] at hi
      cases hi
    · rw [htforeground, htsession, htticking]
      exact fun _ => ⟨rfl, rfl⟩
    · rw [htticks, htticking]
      rfl
    · intro _ hlocked
      rw [htlocked] at hlocked
      cases hlocked
    · intro i session _ hi
      rw [htsession] at hi
      cases hi
  unfold WorkerService.goOn
  split
  case h_1 =>
    -- a new session, which nobody else has
    have hstart : ({ s with
        locked := true
        sessions := s.sessions ++ [.init]
        session := some s.sessions.length
        status := .connecting : WorkerService }).startTicking = { s with
          locked := true
          sessions := s.sessions ++ [.init]
          session := some s.sessions.length
          status := .connecting
          ticking := true
          ticks := 1 } := by
      simp [startTicking, hticking, hticks]
    rw [hstart]
    have hmem : ∀ (i : ℕ) (session : WorkerSession),
        (s.sessions ++ [WorkerSession.init])[i]? = some session →
        s.sessions[i]? = some session ∨
          i = s.sessions.length ∧ session = WorkerSession.init := by
      intro i session hi
      rw [List.getElem?_append] at hi
      split at hi
      case isTrue => exact .inl hi
      case isFalse hlength =>
        rw [List.getElem?_singleton] at hi
        split at hi
        case isTrue hzero => exact .inr ⟨by omega, (Option.some.inj hi).symm⟩
        case isFalse => cases hi
    refine ⟨?_, ?_, ?_, ?_, ?_, ?_, rfl, fun _ _ => rfl, ?_⟩
    · intro i session hi
      obtain hold | ⟨-, rfl⟩ := hmem i session hi
      · exact hreached i session hold
      · exact ⟨[], .nil⟩
    · intro i session hi hne
      obtain hold | ⟨rfl, -⟩ := hmem i session hi
      · exact hover i session hold
      · exact absurd rfl hne
    · intro i hi
      obtain rfl := Option.some.inj hi
      exact ⟨by simp, halive⟩
    · intro after entered hi
      have hi : s.stopping = some (after, entered) := hi
      rw [hstopping] at hi
      cases hi
    · intro after i session hi
      have hi : s.stopping = some (after, true) := hi
      rw [hstopping] at hi
      cases hi
    · exact fun _ => ⟨hforeground true rfl, rfl⟩
    · intro i session _ hi hget hended
      obtain rfl := Option.some.inj hi
      obtain hold | ⟨-, rfl⟩ := hmem _ session hget
      · rw [List.getElem?_eq_none (le_refl _)] at hold
        cases hold
      · cases hended
  case h_2 => exact hnone rfl hsession hstopping hticking hticks rfl rfl
  case h_3 => exact hnone rfl hsession hstopping hticking hticks rfl rfl
  case h_4 => exact hnone rfl hsession hstopping hticking hticks rfl rfl

/-- The service is about to stop its session, or has none. -/
theorem Kept.endSession {after : After} (h : Kept s) (hsessions : s'.sessions = s.sessions)
    (hsession : s'.session = s.session) (hstopping : s'.stopping = none)
    (halive : s'.alive = true)
    (hforeground : ∀ succeeds, after = .start succeeds → s'.foreground = true) :
    Kept (s'.endSession after) := by
  have hreached := h.reached
  have hstale := h.stale
  rw [← hsessions] at hreached hstale
  rw [← hsession] at hstale
  unfold WorkerService.endSession
  simp only
  split
  case h_1 hnone =>
    have hnone : s'.session = none := hnone
    -- there is no session to stop, and the others are over
    have hover : ∀ (i : ℕ) (session : WorkerSession), s'.sessions[i]? = some session →
        Over session := by
      intro i session hi
      refine hstale i session hi ?_
      rw [hnone]
      exact fun heq => by cases heq
    exact Kept.goOn (s := s'.stopTicking) hreached hover hnone hstopping rfl rfl halive hforeground
  case h_2 i hsome =>
    have hsome : s'.session = some i := hsome
    -- the session is to be stopped, and its `stop` is not entered yet
    refine ⟨hreached, hstale, fun i' hi' => ⟨?_, halive⟩, ?_, ?_, fun heq => (by cases heq), rfl,
      fun heq => (by cases heq), fun _ _ heq => (by cases heq)⟩
    · have hi' : s'.session = some i' := hi'
      show i' < s'.sessions.length
      rw [hsessions]
      exact (h.known i' (hsession ▸ hi')).1
    · intro after' entered heq
      obtain ⟨rfl, -⟩ := Prod.mk.inj (Option.some.inj heq)
      refine ⟨fun hnone => ?_, rfl, hforeground⟩
      have hnone : s'.session = none := hnone
      rw [hsome] at hnone
      cases hnone
    · intro after' i' session heq
      cases (Prod.mk.inj (Option.some.inj heq)).2

/-- A message is taken; what it was about is another session, or the service stops its own. -/
theorem Kept.handle {message : Message} {rest : List Message} (h : Kept s)
    (hstopping : s.stopping = none) (hposted : s.posted = message :: rest) :
    Kept ({ s with posted := rest }.handle message) := by
  -- the end of the session is not what is taken, or it is stopped
  have htaken : (∀ i, s.session = some i → message ≠ .ended i) →
      Kept { s with posted := rest } := by
    intro hother
    refine ⟨h.reached, h.stale, h.known, h.stopping, h.entered, h.resting, h.ticks, h.locked, ?_⟩
    intro i session _ hi hget hended
    have hmem := h.posted i session hstopping hi hget hended
    rw [hposted] at hmem
    obtain heq | hrest := List.mem_cons.mp hmem
    · exact absurd heq.symm (hother i hi)
    · exact hrest
  have hshutdown : ∀ status, s.alive = true →
      Kept (({ s with posted := rest } : WorkerService).shutdown status) := by
    intro status halive
    unfold WorkerService.shutdown
    exact h.endSession rfl rfl hstopping halive fun _ heq => by cases heq
  cases message with
  | update i =>
    unfold WorkerService.handle
    simp only
    have htaken := htaken fun _ _ => nofun
    split
    case isTrue =>
      exact ⟨htaken.reached, htaken.stale, htaken.known, htaken.stopping, htaken.entered,
        htaken.resting, htaken.ticks, htaken.locked, htaken.posted⟩
    case isFalse => exact htaken
  | ended i =>
    unfold WorkerService.handle
    simp only
    split
    case isTrue hi => exact hshutdown _ (h.known i hi).2
    case isFalse hi =>
      refine htaken fun i' hi' heq => hi ?_
      rw [Message.ended.inj heq]
      exact hi'
  | nativeExit =>
    unfold WorkerService.handle
    simp only
    split
    case isTrue halive => exact hshutdown _ halive
    case isFalse => exact htaken fun _ _ => nofun

/-- One session goes on, and what was posted is still there. -/
theorem Kept.setSession {i : ℕ} {session session' : WorkerSession} {posted : List Message}
    {stopping : Option (After × Bool)} (h : Kept s) (hget : s.sessions[i]? = some session)
    (hreached : ∃ events, WorkerSession.Run events session')
    (hstale : s.session ≠ some i → Over session')
    (hstopping : stopping = s.stopping ∨ ∃ after, s.stopping = some (after, false) ∧
      stopping = some (after, true))
    (hentered : ∀ after, stopping = some (after, true) → s.session = some i →
      (∃ phase, session'.monitor = some (.stop, phase)) ∨ Over session')
    (hother : ∀ i', s.session = some i' → i' ≠ i → stopping = s.stopping)
    (hposted : s.posted ⊆ posted)
    (hended : stopping = none → session'.ended = 1 → session.ended = 1 ∨ .ended i ∈ posted) :
    Kept { s with
      sessions := s.sessions.set i session', posted := posted, stopping := stopping } := by
  have hlength : i < s.sessions.length := (List.getElem?_eq_some_iff.mp hget).1
  -- only the session `i` is another
  have hsame : ∀ i' session₁, (s.sessions.set i session')[i']? = some session₁ →
      (i' = i ∧ session₁ = session') ∨ (i' ≠ i ∧ s.sessions[i']? = some session₁) := by
    intro i' session₁ hi'
    by_cases heq : i' = i
    · subst heq
      rw [List.getElem?_set_self hlength] at hi'
      exact .inl ⟨rfl, (Option.some.inj hi').symm⟩
    · rw [List.getElem?_set_ne (Ne.symm heq)] at hi'
      exact .inr ⟨heq, hi'⟩
  -- no `stop` returns by this step
  have hnone : stopping = none → s.stopping = none := by
    rintro rfl
    obtain heq | ⟨after, -, hsome⟩ := hstopping
    · exact heq.symm
    · cases hsome
  refine ⟨?_, ?_, ?_, ?_, ?_, ?_, h.ticks, ?_, ?_⟩
  · intro i' session₁ hi'
    obtain ⟨-, rfl⟩ | ⟨-, hold⟩ := hsame i' session₁ hi'
    · exact hreached
    · exact h.reached i' session₁ hold
  · intro i' session₁ hi' hne
    obtain ⟨rfl, rfl⟩ | ⟨-, hold⟩ := hsame i' session₁ hi'
    · exact hstale hne
    · exact h.stale i' session₁ hold hne
  · intro i' hi'
    exact ⟨by simpa using (h.known i' hi').1, (h.known i' hi').2⟩
  · intro after entered hi'
    obtain heq | ⟨after', hbefore, hafter⟩ := hstopping
    · exact h.stopping after entered (heq ▸ hi')
    · have hi' : stopping = some (after, entered) := hi'
      rw [hafter] at hi'
      obtain ⟨rfl, -⟩ := Prod.mk.inj (Option.some.inj hi')
      exact h.stopping after' false hbefore
  · intro after i' session₁ hin hi' hget'
    obtain ⟨rfl, rfl⟩ | ⟨hne, hold⟩ := hsame i' session₁ hget'
    · exact hentered after hin hi'
    · exact h.entered after i' session₁ (hother i' hi' hne ▸ hin) hi' hold
  · exact fun heq => h.resting (hnone heq)
  · exact fun heq => h.locked (hnone heq)
  · intro i' session₁ heq hi' hget' hend
    obtain ⟨rfl, rfl⟩ | ⟨-, hold⟩ := hsame i' session₁ hget'
    · obtain hbefore | hmem := hended heq hend
      · exact hposted (h.posted i' session (hnone heq) hi' hget hbefore)
      · exact hmem
    · exact hposted (h.posted i' session₁ (hnone heq) hi' hold hend)

/-- A step of one of the sessions keeps it, since a session only posts what it has to say. -/
theorem Kept.runSession {i : ℕ} {event : WorkerSession.Event} (h : Kept s)
    (hstop : event ≠ .enter .stop) (hs : s.runSession i event = some s') : Kept s' := by
  unfold WorkerService.runSession at hs
  split at hs
  case h_1 => cases hs
  case h_2 session hget =>
    obtain ⟨session', hstep, rfl⟩ := Option.map_eq_some_iff.mp hs
    obtain ⟨events, hrun⟩ := h.reached i session hget
    refine h.setSession hget ⟨events ++ [event], .snoc hrun hstep⟩ ?_ (.inl rfl) ?_
      (fun _ _ _ => rfl) ?_ ?_
    · exact fun hne => (h.stale i session hget hne).step hrun.sound hstep hstop
    · exact fun after hin hi =>
        stop_step (h.entered after i session hin hi hget) hrun.sound hstep hstop
    · split
      · exact List.subset_append_left ..
      · exact List.Subset.refl _
    · intro _ hend
      by_cases hless : session.ended < session'.ended
      · rw [if_pos hless]
        exact .inr (List.mem_append_right _ (List.mem_singleton_self _))
      · -- an end that was there before
        obtain ⟨-, heq⟩ | ⟨-, -, -, -, -, heq⟩ | ⟨-, -, -, -, -, heq⟩ | ⟨caller, -, -, heq⟩ :=
          WorkerSession.step_monitor hstep
        · exact .inl (heq ▸ hend)
        · exact .inl (heq ▸ hend)
        · exact .inl (heq ▸ hend)
        · split at heq
          · exact .inl (heq ▸ hend)
          · omega

/-- **One step.**  Whatever happens next, the service keeps to what holds between callbacks. -/
theorem Kept.step {event : Event} (h : Kept s) (hs : s.step event = some s') : Kept s' := by
  -- a callback of the main thread runs only while no `stop` is under way
  have honMain : ∀ {callback : WorkerService}, (s.stopping = none → Kept callback) →
      s.onMain callback = some s' → Kept s' := by
    intro callback hkept hs
    rw [onMain, Option.ite_none_right_eq_some, Option.some.injEq] at hs
    obtain ⟨hstopping, rfl⟩ := hs
    exact hkept hstopping
  cases event with
  | session i event =>
    -- `stop` is entered by `enterStop` alone
    by_cases hstop : event = .enter .stop
    · rw [hstop] at hs
      cases hs
    · have hrun : s.step (.session i event) = s.runSession i event := by
        unfold WorkerService.step
        split <;> simp_all
      rw [hrun] at hs
      exact h.runSession hstop hs
  | update i =>
    simp only [WorkerService.step, Option.ite_none_right_eq_some, Option.some.injEq] at hs
    obtain ⟨-, rfl⟩ := hs
    -- one more message is posted, and what was posted stays
    exact ⟨h.reached, h.stale, h.known, h.stopping, h.entered, h.resting, h.ticks, h.locked,
      fun i session hrest hi hget hend =>
        List.mem_append_left _ (h.posted i session hrest hi hget hend)⟩
  | nativeExit =>
    obtain rfl := Option.some.inj hs
    exact ⟨h.reached, h.stale, h.known, h.stopping, h.entered, h.resting, h.ticks, h.locked,
      fun i session hrest hi hget hend =>
        List.mem_append_left _ (h.posted i session hrest hi hget hend)⟩
  | create =>
    simp only [WorkerService.step] at hs
    split at hs
    case isTrue => cases hs
    case isFalse =>
      refine honMain (fun _ => ?_) hs
      exact ⟨h.reached, h.stale, fun i hi => ⟨(h.known i hi).1, rfl⟩, h.stopping, h.entered,
        h.resting, h.ticks, h.locked, h.posted⟩
  | start succeeds =>
    simp only [WorkerService.step] at hs
    split at hs
    case isFalse => cases hs
    case isTrue halive =>
      refine honMain (fun hstopping => ?_) hs
      exact h.endSession rfl rfl hstopping halive fun _ _ => rfl
  | stop =>
    simp only [WorkerService.step] at hs
    split at hs
    case isFalse => cases hs
    case isTrue halive =>
      exact honMain (fun hstopping => h.endSession rfl rfl hstopping halive
        (fun _ heq => by cases heq)) hs
  | destroy =>
    simp only [WorkerService.step] at hs
    split at hs
    case isFalse => cases hs
    case isTrue halive =>
      exact honMain (fun hstopping => h.endSession rfl rfl hstopping halive
        (fun _ heq => by cases heq)) hs
  | message =>
    simp only [WorkerService.step] at hs
    split at hs
    case h_1 => cases hs
    case h_2 message rest hposted =>
      exact honMain (fun hstopping => h.handle hstopping hposted) hs
  | tick =>
    simp only [WorkerService.step] at hs
    split at hs
    case isFalse => cases hs
    case isTrue hpositive =>
      refine honMain (fun _ => ?_) hs
      refine ⟨h.reached, h.stale, h.known, h.stopping, h.entered, h.resting, ?_, h.locked,
        h.posted⟩
      -- the callback posts itself again as long as `ticking` is set
      have hticks := h.ticks
      show (if s.ticking then s.ticks - 1 + 1 else s.ticks - 1) = if s.ticking then 1 else 0
      split at hticks <;> simp_all
  | lockTimeout =>
    obtain rfl := Option.some.inj hs
    exact ⟨h.reached, h.stale, h.known, h.stopping, h.entered, h.resting, h.ticks,
      fun _ heq => (by cases heq), h.posted⟩
  | enterStop =>
    simp only [WorkerService.step] at hs
    split at hs
    case h_2 => cases hs
    case h_1 after i hstopping hsession =>
      split at hs
      case h_1 => cases hs
      case h_2 session hget =>
        obtain ⟨session', henter, rfl⟩ := Option.map_eq_some_iff.mp hs
        obtain ⟨events, hrun⟩ := h.reached i session hget
        have hstep : session.step (.enter .stop) = some session' := henter
        -- the monitor was free, so `stop` is in it from here on
        have hin : ∃ phase, session'.monitor = some (.stop, phase) := by
          unfold WorkerSession.enter at henter
          split at henter
          case h_1 => cases henter
          case h_2 =>
            rw [if_pos (show session.calls .stop = true from rfl), if_pos rfl] at henter
            rw [← Option.some.inj henter]
            exact ⟨_, rfl⟩
        refine h.setSession hget ⟨events ++ [.enter .stop], .snoc hrun hstep⟩
          (fun hne => absurd hsession hne) (.inr ⟨after, hstopping, rfl⟩)
          (fun _ _ _ => .inl hin) ?_ (List.Subset.refl _) (fun heq => by cases heq)
        intro i' hi' hne
        rw [hsession] at hi'
        exact absurd (Option.some.inj hi').symm hne
  | returnStop =>
    simp only [WorkerService.step] at hs
    split at hs
    case h_2 => cases hs
    case h_1 after i hstopping hsession =>
      split at hs
      case h_1 => cases hs
      case h_2 session hget =>
        split at hs
        case isFalse => cases hs
        case isTrue hmonitor =>
          obtain rfl := Option.some.inj hs
          obtain ⟨-, hticking, hforeground⟩ := h.stopping after true hstopping
          -- every session is over now, the one that was stopped with them
          have hover : ∀ (i' : ℕ) (session' : WorkerSession), s.sessions[i']? = some session' →
              Over session' := by
            intro i' session' hi'
            by_cases heq : i' = i
            · -- the one that was stopped
              subst heq
              obtain rfl := Option.some.inj (hget.symm.trans hi')
              obtain ⟨phase, hphase⟩ | hover := h.entered after i' session hstopping hsession hget
              · rw [hmonitor] at hphase
                cases hphase
              · exact hover
            · refine h.stale i' session' hi' fun hi => heq ?_
              rw [hsession] at hi
              exact (Option.some.inj hi).symm
          have hticks := h.ticks
          rw [hticking] at hticks
          exact Kept.goOn (s := { s with session := none, stopping := none }) h.reached hover rfl
            rfl hticking hticks (h.known i hsession).2 hforeground

/-! ### The theorem -/

/-- A run of the app from before its service was created. -/
abbrev Run (events : List Event) (s : WorkerService) : Prop :=
  Trace (fun s event s' => s.step event = some s') init events s

/-- What is kept holds in every state that a run reaches. -/
theorem Run.kept {events : List Event} (h : Run events s) : Kept s :=
  h.invariant (I := fun _ s => Kept s) init_kept fun _ _ _ _ _ hkept hs => hkept.step hs

/-- A session is new after a callback only if the callback was to start one. -/
theorem session_goOn {after : After} (h : (s.goOn after).session ≠ none)
    (hnone : s.session = none) : after = .start true := by
  cases after with
  | start succeeds =>
    cases succeeds with
    | true => rfl
    | false => exact absurd hnone h
  | shutdown status => exact absurd hnone h
  | destroy => exact absurd hnone h

/-- A new session takes a new `start`. -/
theorem only_start {event : Event} (hs : s.step event = some s') (hnone : s.session = none)
    (hsome : s'.session ≠ none) : ∃ succeeds, event = .start succeeds := by
  -- no session comes of ending one, unless it is for a `start`
  have hend : ∀ {t : WorkerService} {after : After}, t.session = none →
      (∀ succeeds, after ≠ .start succeeds) → (t.endSession after).session = none := by
    intro t after ht hafter
    have heq : t.endSession after = t.stopTicking.goOn after := by
      simp only [endSession, stopTicking, ht]
    rw [heq]
    by_contra hne
    exact hafter true (session_goOn hne ht)
  -- so every other callback is ruled out by the session it leaves
  have honMain : ∀ {callback : WorkerService}, s.onMain callback = some s' →
      callback.session ≠ none := by
    intro callback hs
    rw [onMain, Option.ite_none_right_eq_some, Option.some.injEq] at hs
    obtain ⟨-, rfl⟩ := hs
    exact hsome
  cases event with
  | start succeeds => exact ⟨succeeds, rfl⟩
  | session i event =>
    have hrun : s.runSession i event = some s' ∨ s.step (.session i event) = none := by
      unfold WorkerService.step at hs
      split at hs <;> simp_all
    obtain hrun | hrun := hrun
    · unfold WorkerService.runSession at hrun
      split at hrun
      case h_1 => cases hrun
      case h_2 =>
        obtain ⟨session', -, rfl⟩ := Option.map_eq_some_iff.mp hrun
        exact absurd hnone hsome
    · rw [hrun] at hs
      cases hs
  | update i =>
    simp only [WorkerService.step, Option.ite_none_right_eq_some, Option.some.injEq] at hs
    obtain ⟨-, rfl⟩ := hs
    exact absurd hnone hsome
  | nativeExit | lockTimeout =>
    obtain rfl := Option.some.inj hs
    exact absurd hnone hsome
  | create =>
    simp only [WorkerService.step] at hs
    split at hs
    · cases hs
    · exact (honMain hs hnone).elim
  | stop | destroy =>
    simp only [WorkerService.step] at hs
    split at hs
    · exact (honMain hs (hend hnone fun _ heq => by cases heq)).elim
    · cases hs
  | message =>
    simp only [WorkerService.step] at hs
    split at hs
    case h_1 => cases hs
    case h_2 message rest hposted =>
      refine (honMain hs ?_).elim
      have hshutdown : ∀ status, (({ s with posted := rest } : WorkerService).shutdown
          status).session = none := fun _ => hend hnone fun _ heq => by cases heq
      -- a message ends the session at most
      unfold handle
      split <;> split
      · exact hnone
      · exact hnone
      · exact hshutdown _
      · exact hnone
      · exact hshutdown _
      · exact hnone
  | tick =>
    simp only [WorkerService.step] at hs
    split at hs
    · exact (honMain hs hnone).elim
    · cases hs
  | enterStop | returnStop =>
    -- both need the session that is being stopped
    simp only [WorkerService.step, hnone] at hs
    split at hs
    case h_1 heq => cases heq
    case h_2 => cases hs

/-- **The service**, in every run of its callbacks and of its sessions' threads.  A session that is
    not the current one has been stopped and closes what it has, so one at most is on, and a new
    one takes a new `start`.  Between two callbacks the notification, the ticks and the locks are
    there for a session only, and if the current session has failed a message of that is waiting. -/
theorem service_law {events : List Event} (h : Run events s) :
    (∀ (i : ℕ) (session : WorkerSession), s.sessions[i]? = some session → s.session ≠ some i →
        session.wires.closed = true ∧ session.wires.halted = true ∧ session.monitor = none ∧
          session.poolUp = false) ∧
      (s.stopping = none → s.foreground = s.session.isSome ∧ s.ticking = s.session.isSome ∧
        s.ticks = (if s.session.isSome then 1 else 0) ∧
        (s.locked = true → s.session.isSome = true)) ∧
      (∀ (i : ℕ) (session : WorkerSession), s.stopping = none → s.session = some i →
        s.sessions[i]? = some session → session.ended = 1 → .ended i ∈ s.posted) ∧
      (s.session = none → ∀ event s', s.step event = some s' → s'.session ≠ none →
        ∃ succeeds, event = .start succeeds) := by
  have hkept := h.kept
  refine ⟨fun i session hget hne => ?_, fun hstopping => ?_, hkept.posted,
    fun hnone event s' hs hsome => only_start hs hnone hsome⟩
  · obtain ⟨hclosed, hmonitor, hdown⟩ := hkept.stale i session hget hne
    obtain ⟨events', hrun⟩ := hkept.reached i session hget
    exact ⟨hclosed, hrun.sound.ends.poolDown hdown, hmonitor, hdown⟩
  · obtain ⟨hforeground, hticking⟩ := hkept.resting hstopping
    have hticks := hkept.ticks
    rw [hticking] at hticks
    exact ⟨hforeground, hticking, hticks, hkept.locked hstopping⟩

/-- A session is started, another is started in its place, and the first one has been stopped. -/
def restarted : List Event :=
  [.create, .start true, .session 0 (.control true), .start true, .enterStop] ++
    [.flag, .begin, .finish, .clear, .stopClock, .stopPool, .leave].map (Event.session 0) ++
    [.returnStop]

/-- After a stop and a new start the second session is on, and the first one has been halted. -/
theorem service_law_restarted : ∃ s session, Run restarted s ∧ s.session = some 1 ∧
    s.sessions[0]? = some session ∧ session.wires.halted = true := by
  have hresult : (restarted.foldlM (fun s event => step s event) init).map
      (fun s => (s.session, s.sessions.length)) = some (some 1, 2) := by decide
  obtain ⟨s, hs, hpair⟩ := Option.map_eq_some_iff.mp hresult
  obtain ⟨hsession, hlength⟩ := Prod.mk.inj hpair
  have hrun : Run restarted s := Trace.of_foldlM hs
  have hget := List.getElem?_eq_getElem (show 0 < s.sessions.length by omega)
  have hhalted := ((service_law hrun).1 0 _ hget (by rw [hsession]; decide)).2.1
  exact ⟨s, _, hrun, hsession, hget, hhalted⟩

end WorkerService

end ShareCompute.App
