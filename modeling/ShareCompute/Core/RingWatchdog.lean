import ShareCompute.Core.MembershipService
import ShareCompute.Library.Runs
import Mathlib.Data.Option.Basic

namespace ShareCompute.Core

open ShareCompute.Library

/-!
# The ring watchdog

`RingWatchdog.swift`: decides when an in-flight generation has become unrecoverable.  Every
entry point takes the time it is called at.

* `evaluate_cases` and `beginGeneration_cases` — what the two timed entry points can do.
* `recordLosses_eq` — reporting losses, one at a time or as membership events, keeps the first.
* `Call`, `perform` and `machine` turn the watchdog into an object whose runs are lists of
  calls.
-/

/-! ### Reasons, health and configuration -/

/-- Why the ring was lost, with the node that broke it. -/
inductive RingLossReason
  /-- The node told us it was going away. -/
  | memberDeparted (node : NodeID)
  /-- Heartbeats lapsed without notice. -/
  | memberUnreachable (node : NodeID)
deriving DecidableEq

/-- The node that broke the ring, by leaving it or by not answering. -/
def RingLossReason.departedNode : RingLossReason → NodeID
  | .memberDeparted node | .memberUnreachable node => node

/-- Why the ring ended up unrecoverable; `RingLossReason` says who left. -/
inductive RingFailureCause
  | reformationFailed (detail : String)
  | reformationTimedOut
  | reformationExhausted (attempts : ℤ) (lastError : String)
deriving DecidableEq

/-- What the watchdog answers when it is asked for the health of the ring. -/
inductive RingHealth
  | healthy
  | stalled (since : Date)
  | reforming (reason : RingLossReason) (since : Date)
  | lost (reason : RingLossReason) (cause : Option RingFailureCause)
deriving DecidableEq

/-- The four bounds of the watchdog, with the source's defaults; times are in seconds. -/
structure RingWatchdogConfig where
  stallThreshold : TimeInterval := 10
  graceAfterLoss : TimeInterval := 2
  reformationTimeout : TimeInterval := 30
  maxReformationAttempts : ℤ := 3

/-- Where the watchdog is; a ring that was given up stays so until a new generation begins. -/
inductive Phase
  | running
  | reforming (reason : RingLossReason) (since : Date)
  | terminal (reason : RingLossReason) (cause : Option RingFailureCause)
deriving DecidableEq

/-- The stored properties of the watchdog; the phase and the attempts decide about its health. -/
structure RingWatchdog where
  config : RingWatchdogConfig
  lastProgressAt : Date
  /-- the reason and when it was recorded -/
  pendingLoss : Option (RingLossReason × Date)
  phase : Phase
  reformationAttempts : ℤ

namespace RingWatchdog

/-- A new watchdog has seen progress when it was started, and no loss. -/
def init (config : RingWatchdogConfig) (startedAt : Date) : RingWatchdog where
  config := config
  lastProgressAt := startedAt
  pendingLoss := none
  phase := .running
  reformationAttempts := 0

/-! ### What can be read off -/

/-- The ring was given up, for good. -/
def isTerminal (self : RingWatchdog) : Bool :=
  match self.phase with
  | .terminal .. => true
  | _ => false

/-- A re-formation is under way, since a time that the phase holds. -/
def isReforming (self : RingWatchdog) : Bool :=
  match self.phase with
  | .reforming .. => true
  | _ => false

/-- Which node broke the ring, whether or not that has proved fatal yet. -/
def lossReason (self : RingWatchdog) : Option RingLossReason :=
  match self.phase with
  | .running => none
  | .reforming reason _ => some reason
  | .terminal reason _ => some reason

/-- How many rebuilds have been attempted for the current loss. -/
def attemptCount (self : RingWatchdog) : ℤ := self.reformationAttempts

/-! ### Entry points -/

/-- A token (or any forward progress) arrived. -/
def recordProgress (self : RingWatchdog) (now : Date) : RingWatchdog :=
  match self.phase with
  | .running => { self with lastProgressAt := now }
  | _ => self

/-- Membership told us a node is gone.  The first diagnosis is kept: it names the node that
    actually broke the ring. -/
def recordLoss (self : RingWatchdog) (reason : RingLossReason) (now : Date) : RingWatchdog :=
  match self.phase, self.pendingLoss with
  | .running, none => { self with pendingLoss := some (reason, now) }
  | _, _ => self

/-- The host finished rebuilding: the ring runs again, and nothing counts against it. -/
def reformationSucceeded (self : RingWatchdog) (now : Date) : RingWatchdog :=
  match self.phase with
  | .reforming .. =>
      { self with
        phase := .running
        pendingLoss := none
        reformationAttempts := 0
        lastProgressAt := now }
  | _ => self

/-- The host cannot rebuild at all, so a ring that was to be formed anew is given up. -/
def reformationUnavailable (self : RingWatchdog) (detail : String) (_now : Date) :
    RingWatchdog :=
  match self.phase with
  | .reforming reason _ =>
      { self with phase := .terminal reason (some (.reformationFailed detail)) }
  | _ => self

/-- The host tried and failed; a retry restarts the clock. -/
def reformationFailed (self : RingWatchdog) (detail : String) (now : Date) : RingWatchdog :=
  match self.phase with
  | .reforming reason _ =>
      let attempts := self.reformationAttempts + 1
      if self.config.maxReformationAttempts ≤ attempts then
        { self with
          reformationAttempts := attempts
          phase := .terminal reason (some (.reformationExhausted attempts detail)) }
      else
        { self with
          reformationAttempts := attempts
          phase := .reforming reason now }
  | _ => self

/-- The loss a membership event reports, if it reports one. -/
def lossReason? : MembershipEvent → Option RingLossReason
  | .nodeDraining node => some (.memberDeparted node)
  | .nodeEvicted node .drained => some (.memberDeparted node)
  | .nodeEvicted node .heartbeatLost => some (.memberUnreachable node)
  | .nodeEvicted node .leaseExpired => some (.memberUnreachable node)
  | .nodeJoined _ | .epochChanged .. | .epochChangeDeferred _ => none

/-- Feed `MembershipService` output straight in: each event that is a loss is recorded. -/
def consume (self : RingWatchdog) (events : List MembershipEvent) (now : Date) : RingWatchdog :=
  events.foldl (fun watchdog event =>
    match lossReason? event with
    | some reason => watchdog.recordLoss reason now
    | none => watchdog) self

/-- The state after the evaluation, and the health it reports. -/
def evaluate (self : RingWatchdog) (now : Date) : RingWatchdog × RingHealth :=
  match self.phase with
  | .terminal reason cause => (self, .lost reason cause)
  | .reforming reason since =>
      -- a host that never reports back must not leave the ring waiting indefinitely
      if self.config.reformationTimeout ≤ now - since then
        ({ self with phase := .terminal reason (some .reformationTimedOut) },
          .lost reason (some .reformationTimedOut))
      else (self, .reforming reason since)
  | .running =>
      match self.pendingLoss with
      | some (reason, recordedAt) =>
          -- each token still arriving pushes the deadline out
          let deadlineFrom := max self.lastProgressAt recordedAt
          if self.config.graceAfterLoss ≤ now - deadlineFrom then
            ({ self with phase := .reforming reason now }, .reforming reason now)
          else (self, .stalled self.lastProgressAt)
      | none =>
          if self.config.stallThreshold ≤ now - self.lastProgressAt then
            (self, .stalled self.lastProgressAt)
          else (self, .healthy)

/-- Begins a new request, unless the ring is unrecoverable or mid-rebuild once any overdue
    loss is confirmed. -/
def beginGeneration (self : RingWatchdog) (now : Date) : RingWatchdog × Bool :=
  let self := (self.evaluate now).1
  match self.phase with
  | .terminal .. | .reforming .. => (self, false)
  | .running => ({ self with lastProgressAt := now, pendingLoss := none }, true)

/-! ### What the entry points do -/

/-- The losses a list of membership events reports. -/
def lossReasons (events : List MembershipEvent) : List RingLossReason :=
  events.filterMap lossReason?

/-- Report several losses at one time, one after the other. -/
def recordLosses (self : RingWatchdog) (reasons : List RingLossReason) (now : Date) :
    RingWatchdog := reasons.foldl (fun watchdog reason => watchdog.recordLoss reason now) self

/-- To consume the events of the membership is to record the losses that they tell of. -/
theorem consume_eq (self : RingWatchdog) (events : List MembershipEvent) (now : Date) :
    self.consume events now = self.recordLosses (lossReasons events) now := by
  unfold consume recordLosses lossReasons
  induction events generalizing self with
  | nil => rfl
  | cons event events ih =>
    rw [List.foldl_cons, ih, List.filterMap_cons]
    cases lossReason? event <;> rfl

/-- A loss is recorded only while the ring runs. -/
theorem recordLoss_of_not_running {self : RingWatchdog} (h : self.phase ≠ .running)
    (reason : RingLossReason) (now : Date) : self.recordLoss reason now = self := by
  unfold recordLoss
  split
  · next hrunning _ => exact absurd hrunning h
  · rfl

/-- A loss that is recorded later does not take the place of the first one. -/
theorem recordLoss_of_pending {self : RingWatchdog} {pending : RingLossReason × Date}
    (h : self.pendingLoss = some pending) (reason : RingLossReason) (now : Date) :
    self.recordLoss reason now = self := by
  unfold recordLoss
  split
  · next hnone => rw [h] at hnone; cases hnone
  · rfl

/-- Where one loss changes nothing, a list of them changes nothing. -/
theorem recordLosses_of_kept {self : RingWatchdog}
    (h : ∀ reason now, self.recordLoss reason now = self) (reasons : List RingLossReason)
    (now : Date) : self.recordLosses reasons now = self := by
  induction reasons with
  | nil => rfl
  | cons reason reasons ih => rw [recordLosses, List.foldl_cons, h, ← recordLosses, ih]

/-- **Reporting losses** sets the pending loss to the first of them, if the watchdog is running
    and has none yet, and does nothing otherwise. -/
theorem recordLosses_eq (self : RingWatchdog) (reasons : List RingLossReason) (now : Date) :
    self.recordLosses reasons now =
      if self.phase = .running then
        { self with
          pendingLoss := self.pendingLoss.or (reasons.head?.map (fun reason => (reason, now))) }
      else self := by
  by_cases hrunning : self.phase = .running
  · rw [if_pos hrunning]
    cases hpending : self.pendingLoss with
    | some pending =>
      rw [recordLosses_of_kept (recordLoss_of_pending hpending), Option.some_or, ← hpending]
    | none =>
      cases reasons with
      | nil =>
        show self = { self with pendingLoss := none }
        rw [← hpending]
      | cons reason reasons =>
        have hfirst : self.recordLoss reason now
            = { self with pendingLoss := some (reason, now) } := by
          simp only [recordLoss, hrunning, hpending]
        rw [recordLosses, List.foldl_cons, ← recordLosses, hfirst,
          recordLosses_of_kept (recordLoss_of_pending rfl)]
        rfl
  · rw [if_neg hrunning, recordLosses_of_kept (recordLoss_of_not_running hrunning)]

/-- Recording losses does not move the watchdog to another phase; `evaluate` does. -/
@[simp] theorem recordLosses_phase (self : RingWatchdog) (reasons : List RingLossReason)
    (now : Date) : (self.recordLosses reasons now).phase = self.phase := by
  rw [recordLosses_eq]
  split <;> rfl

/-- A ring that was given up is reported as lost, for the same reason every time. -/
theorem evaluate_of_terminal {self : RingWatchdog} {reason : RingLossReason}
    {cause : Option RingFailureCause} (h : self.phase = .terminal reason cause) (now : Date) :
    self.evaluate now = (self, .lost reason cause) := by
  simp only [evaluate, h]

/-- A re-formation that takes too long ends in giving the ring up. -/
theorem evaluate_of_reforming {self : RingWatchdog} {reason : RingLossReason} {since : Date}
    (h : self.phase = .reforming reason since) (now : Date) :
    self.evaluate now =
      if self.config.reformationTimeout ≤ now - since then
        ({ self with phase := .terminal reason (some .reformationTimedOut) },
          .lost reason (some .reformationTimedOut))
      else (self, .reforming reason since) := by
  simp only [evaluate, h]

/-- A recorded loss that has not been followed by progress for the grace period starts a
    re-formation. -/
theorem evaluate_of_pending {self : RingWatchdog} {reason : RingLossReason} {recordedAt : Date}
    (h : self.phase = .running) (hpending : self.pendingLoss = some (reason, recordedAt))
    (now : Date) :
    self.evaluate now =
      if self.config.graceAfterLoss ≤ now - max self.lastProgressAt recordedAt then
        ({ self with phase := .reforming reason now }, .reforming reason now)
      else (self, .stalled self.lastProgressAt) := by
  simp only [evaluate, h, hpending]

/-- Without a loss the ring is healthy, or stalled when there was no progress for too long. -/
theorem evaluate_of_quiet {self : RingWatchdog} (h : self.phase = .running)
    (hpending : self.pendingLoss = none) (now : Date) :
    self.evaluate now =
      (self, if self.config.stallThreshold ≤ now - self.lastProgressAt then
        .stalled self.lastProgressAt else .healthy) := by
  simp only [evaluate, h, hpending]
  split <;> rfl

/-- **The ways an evaluation can end**, each with the state and the verdict that it leaves. -/
theorem evaluate_cases (self : RingWatchdog) (now : Date) :
    (∃ reason cause, self.phase = .terminal reason cause ∧
      self.evaluate now = (self, .lost reason cause)) ∨
    (∃ reason since, self.phase = .reforming reason since ∧
      self.config.reformationTimeout ≤ now - since ∧
      self.evaluate now = ({ self with phase := .terminal reason (some .reformationTimedOut) },
        .lost reason (some .reformationTimedOut))) ∨
    (∃ reason since, self.phase = .reforming reason since ∧
      now - since < self.config.reformationTimeout ∧
      self.evaluate now = (self, .reforming reason since)) ∨
    (∃ reason recordedAt, self.phase = .running ∧ self.pendingLoss = some (reason, recordedAt) ∧
      self.config.graceAfterLoss ≤ now - max self.lastProgressAt recordedAt ∧
      self.evaluate now = ({ self with phase := .reforming reason now }, .reforming reason now)) ∨
    (self.phase = .running ∧
      (∀ reason recordedAt, self.pendingLoss = some (reason, recordedAt) →
        now - max self.lastProgressAt recordedAt < self.config.graceAfterLoss) ∧
      ∃ health, (health = .healthy ∨ health = .stalled self.lastProgressAt) ∧
        self.evaluate now = (self, health)) := by
  cases hphase : self.phase with
  | terminal reason cause =>
    exact .inl ⟨reason, cause, rfl, evaluate_of_terminal hphase now⟩
  | reforming reason since =>
    have heq := evaluate_of_reforming hphase now
    by_cases htimeout : self.config.reformationTimeout ≤ now - since
    · rw [if_pos htimeout] at heq
      exact .inr (.inl ⟨reason, since, rfl, htimeout, heq⟩)
    · rw [if_neg htimeout] at heq
      exact .inr (.inr (.inl ⟨reason, since, rfl, not_le.mp htimeout, heq⟩))
  | running =>
    refine .inr (.inr (.inr ?_))
    cases hpending : self.pendingLoss with
    | some pending =>
      obtain ⟨reason, recordedAt⟩ := pending
      have heq := evaluate_of_pending hphase hpending now
      by_cases hgrace : self.config.graceAfterLoss ≤ now - max self.lastProgressAt recordedAt
      · rw [if_pos hgrace] at heq
        exact .inl ⟨reason, recordedAt, rfl, rfl, hgrace, heq.trans (by rw [hpending])⟩
      · rw [if_neg hgrace] at heq
        refine .inr ⟨rfl, ?_, _, .inr rfl, heq⟩
        rintro _ _ ⟨⟩
        exact not_le.mp hgrace
    | none =>
      refine .inr ⟨rfl, by simp, _, ?_, evaluate_of_quiet hphase hpending now⟩
      split
      · exact .inr rfl
      · exact .inl rfl

/-- An evaluation moves the phase and nothing else. -/
theorem evaluate_frame (self : RingWatchdog) (now : Date) :
    (self.evaluate now).1 = { self with phase := (self.evaluate now).1.phase } := by
  rcases self.evaluate_cases now with ⟨_, _, _, heq⟩ | ⟨_, _, _, _, heq⟩ | ⟨_, _, _, _, heq⟩ |
    ⟨_, _, _, _, _, heq⟩ | ⟨_, _, _, _, heq⟩ <;> rw [heq]

/-- **The ways to begin a generation**: refused as the evaluation left it, or admitted. -/
theorem beginGeneration_cases (self : RingWatchdog) (now : Date) :
    ((self.evaluate now).1.phase ≠ .running ∧
      self.beginGeneration now = ((self.evaluate now).1, false)) ∨
    ((self.evaluate now).1.phase = .running ∧
      self.beginGeneration now
        = ({ (self.evaluate now).1 with lastProgressAt := now, pendingLoss := none }, true)) := by
  unfold beginGeneration
  cases hphase : (self.evaluate now).1.phase with
  | running => exact .inr ⟨rfl, by simp only [hphase]⟩
  | reforming => exact .inl ⟨by simp, by simp only [hphase]⟩
  | terminal => exact .inl ⟨by simp, by simp only [hphase]⟩

/-- A generation begins exactly when the ring still runs after the evaluation. -/
theorem beginGeneration_iff (self : RingWatchdog) (now : Date) :
    (self.beginGeneration now).2 = true ↔ (self.evaluate now).1.phase = .running := by
  rcases self.beginGeneration_cases now with ⟨hphase, heq⟩ | ⟨hphase, heq⟩
  · simp [heq, hphase]
  · simp [heq, hphase]

/-! ### The watchdog as an object -/

/-- A call of an entry point, with its arguments. -/
inductive Call
  | recordProgress (now : Date)
  | recordLoss (reason : RingLossReason) (now : Date)
  | consume (events : List MembershipEvent) (now : Date)
  | reformationSucceeded (now : Date)
  | reformationUnavailable (detail : String) (now : Date)
  | reformationFailed (detail : String) (now : Date)
  | evaluate (now : Date)
  | beginGeneration (now : Date)

/-- The time of a call, which is its argument. -/
def Call.time : Call → Date
  | .recordProgress now | .recordLoss _ now | .consume _ now | .reformationSucceeded now
  | .reformationUnavailable _ now | .reformationFailed _ now | .evaluate now
  | .beginGeneration now => now

/-- The losses that a call reports, in their order. -/
def Call.losses : Call → List RingLossReason
  | .recordLoss reason _ => [reason]
  | .consume events _ => lossReasons events
  | _ => []

/-- What a call returns: nothing, a verdict, or whether a generation is admitted. -/
inductive Answer
  | nothing
  | health (health : RingHealth)
  | admitted (admitted : Bool)
deriving DecidableEq

/-- One call of the watchdog, with its answer. -/
def perform (self : RingWatchdog) : Call → RingWatchdog × Answer
  | .recordProgress now => (self.recordProgress now, .nothing)
  | .recordLoss reason now => (self.recordLoss reason now, .nothing)
  | .consume events now => (self.consume events now, .nothing)
  | .reformationSucceeded now => (self.reformationSucceeded now, .nothing)
  | .reformationUnavailable detail now => (self.reformationUnavailable detail now, .nothing)
  | .reformationFailed detail now => (self.reformationFailed detail now, .nothing)
  | .evaluate now => ((self.evaluate now).1, .health (self.evaluate now).2)
  | .beginGeneration now => ((self.beginGeneration now).1, .admitted (self.beginGeneration now).2)

/-- The watchdog as an object whose methods are called one after the other. -/
def machine : Machine RingWatchdog Call Answer := ⟨perform⟩

/-- No call changes the configuration, so that of the start holds throughout. -/
@[simp] theorem perform_config (self : RingWatchdog) (call : Call) :
    (self.perform call).1.config = self.config := by
  cases call with
  | recordProgress now => simp only [perform, recordProgress]; split <;> rfl
  | recordLoss reason now => simp only [perform, recordLoss]; split <;> rfl
  | consume events now => simp only [perform, consume_eq, recordLosses_eq]; split <;> rfl
  | reformationSucceeded now => simp only [perform, reformationSucceeded]; split <;> rfl
  | reformationUnavailable detail now =>
    simp only [perform, reformationUnavailable]; split <;> rfl
  | reformationFailed detail now =>
    simp only [perform, reformationFailed]
    split
    · split <;> rfl
    · rfl
  | evaluate now =>
    simp only [perform]
    rw [evaluate_frame]
  | beginGeneration now =>
    have hevaluate : (self.evaluate now).1.config = self.config := by rw [evaluate_frame]
    rcases self.beginGeneration_cases now with ⟨_, heq⟩ | ⟨_, heq⟩ <;>
      simp [perform, heq, hevaluate]

/-- Nothing resurrects a ring that gave up. -/
theorem perform_of_terminal {self : RingWatchdog} {reason : RingLossReason}
    {cause : Option RingFailureCause} (h : self.phase = .terminal reason cause) (call : Call) :
    (self.perform call).1 = self := by
  cases call with
  | recordProgress now => simp only [perform, recordProgress, h]
  | recordLoss reason now => exact recordLoss_of_not_running (by simp [h]) reason now
  | consume events now =>
    simp only [perform, consume_eq, recordLosses_eq, h, reduceCtorEq, if_false]
  | reformationSucceeded now => simp only [perform, reformationSucceeded, h]
  | reformationUnavailable detail now => simp only [perform, reformationUnavailable, h]
  | reformationFailed detail now => simp only [perform, reformationFailed, h]
  | evaluate now => simp only [perform, evaluate_of_terminal h]
  | beginGeneration now =>
    have heq := evaluate_of_terminal h now
    simp only [perform, beginGeneration, heq, h]

end RingWatchdog

end ShareCompute.Core
