import ShareCompute.Core.RingWatchdog

namespace ShareCompute.Core

open ShareCompute.Library

/-!
# The laws of the ring watchdog

What a run of calls says about the watchdog's phase.  The laws are stated over the run's
history: `FirstLoss` is the first loss recorded while running since the watchdog last started
afresh, `lastProgress` the last time it was told of progress.

* `phase_safety` — when the watchdog leaves its running phase, what it blames, and the bounds
  on rebuilding, over every run.
* `recorded_loss_kept` — a recorded loss is not forgotten unless a rebuild succeeds or a new
  generation is admitted; `recorded_loss_forgotten` shows both exceptions at work.
-/

namespace RingWatchdog

/-! ### Reading a history -/

/-- A recorded call of the watchdog, with its state before and its answer. -/
abbrev Record := Entry RingWatchdog Call Answer

/-- The call starts the watchdog afresh: a rebuild that succeeded, or a generation that was
    admitted. -/
def Clears (e : Record) : Prop :=
  (∃ now, e.call = .reformationSucceeded now ∧ e.before.isReforming = true) ∨
    e.returned = .admitted true

/-- The losses a call records: those it reports, if the watchdog is running. -/
def recorded (e : Record) : List RingLossReason :=
  if e.before.phase = .running then e.call.losses else []

/-- Since the watchdog last started afresh, no loss was recorded. -/
def Quiet (h : List Record) : Prop :=
  ∃ old recent, h = old ++ recent ∧ (∀ e ∈ old.getLast?, Clears e) ∧
    ∀ e ∈ recent, ¬ Clears e ∧ recorded e = []

/-- The first loss recorded since the watchdog last started afresh is `reason`, at `time`. -/
def FirstLoss (h : List Record) (reason : RingLossReason) (time : Date) : Prop :=
  ∃ before e after, h = before ++ e :: after ∧ Quiet before ∧
    (recorded e).head? = some reason ∧ e.call.time = time ∧ ∀ x ∈ e :: after, ¬ Clears x

/-- The progress a call makes known, if it does. -/
def progress? (e : Record) : Option Date :=
  match e.call, e.before.phase, e.returned with
  | .recordProgress now, .running, _ => some now
  | .reformationSucceeded now, .reforming .., _ => some now
  | .beginGeneration now, _, .admitted true => some now
  | _, _, _ => none

/-- The last progress known, counting the start as progress. -/
def lastProgress (startedAt : Date) (h : List Record) : Date :=
  (h.filterMap progress?).getLast?.getD startedAt

/-- Which calls start the watchdog afresh: a success that was waited for, and a generation that is
    admitted. -/
theorem clears_entry {self : RingWatchdog} {call : Call} :
    Clears (machine.entry self call) ↔
      (∃ now, call = .reformationSucceeded now ∧ self.isReforming = true) ∨
        ∃ now, call = .beginGeneration now ∧ (self.beginGeneration now).2 = true := by
  refine or_congr Iff.rfl ?_
  cases call <;> simp [machine, perform]

/-- A call that reports no loss records none. -/
theorem recorded_eq_nil {e : Record} (h : e.call.losses = []) : recorded e = [] := by
  simp [recorded, h]

/-- At the start no loss was recorded. -/
theorem Quiet.nil : Quiet [] := ⟨[], [], rfl, by simp, by simp⟩

/-- A call that starts the watchdog afresh forgets what was recorded. -/
theorem Quiet.of_clears {h : List Record} {e : Record} (he : Clears e) : Quiet (h ++ [e]) :=
  ⟨h ++ [e], [], by simp, by simpa using he, by simp⟩

/-- A call that records nothing keeps the quiet. -/
theorem Quiet.snoc {h : List Record} {e : Record} (hq : Quiet h) (hclear : ¬ Clears e)
    (hnone : recorded e = []) : Quiet (h ++ [e]) := by
  obtain ⟨old, recent, rfl, hold, hrecent⟩ := hq
  refine ⟨old, recent ++ [e], by simp, hold, fun x hx => ?_⟩
  rcases List.mem_append.mp hx with hx | hx
  · exact hrecent x hx
  · obtain rfl := List.mem_singleton.mp hx
    exact ⟨hclear, hnone⟩

/-- The first loss that a call reports in the quiet is the first loss. -/
theorem Quiet.first {h : List Record} {e : Record} {reason : RingLossReason} (hq : Quiet h)
    (hclear : ¬ Clears e) (hfirst : (recorded e).head? = some reason) :
    FirstLoss (h ++ [e]) reason e.call.time :=
  ⟨h, e, [], rfl, hq, hfirst, rfl, by simpa using hclear⟩

/-- The first loss stays the first until the watchdog starts afresh. -/
theorem FirstLoss.snoc {h : List Record} {e : Record} {reason : RingLossReason} {time : Date}
    (hfirst : FirstLoss h reason time) (hclear : ¬ Clears e) :
    FirstLoss (h ++ [e]) reason time := by
  obtain ⟨before, e₀, after, rfl, hq, hhead, htime, hafter⟩ := hfirst
  refine ⟨before, e₀, after ++ [e], by simp, hq, hhead, htime, fun x hx => ?_⟩
  rw [← List.cons_append] at hx
  rcases List.mem_append.mp hx with hx | hx
  · exact hafter x hx
  · obtain rfl := List.mem_singleton.mp hx
    exact hclear

/-- The last progress is that of the last call, if it was one, and else that before it. -/
theorem lastProgress_snoc (startedAt : Date) (h : List Record) (e : Record) :
    lastProgress startedAt (h ++ [e]) = (progress? e).getD (lastProgress startedAt h) := by
  rw [lastProgress, List.filterMap_append]
  cases hprogress : progress? e with
  | none => simp [lastProgress, hprogress]
  | some now => simp [hprogress]

/-! ### Phase safety -/

/-- What the calls so far say about the fields. -/
structure PhaseInvariant (config : RingWatchdogConfig) (startedAt : Date) (h : List Record)
    (watchdog : RingWatchdog) : Prop where
  sameConfig : watchdog.config = config
  progress : watchdog.lastProgressAt = lastProgress startedAt h
  quiet : watchdog.pendingLoss = none → Quiet h
  pending : ∀ reason time, watchdog.pendingLoss = some (reason, time) → FirstLoss h reason time
  running : watchdog.phase = .running → watchdog.reformationAttempts = 0
  reforming : ∀ reason since, watchdog.phase = .reforming reason since →
    (∃ time, watchdog.pendingLoss = some (reason, time)) ∧ 0 ≤ watchdog.reformationAttempts ∧
      watchdog.reformationAttempts < config.maxReformationAttempts
  terminal : ∀ reason cause, watchdog.phase = .terminal reason cause →
    ∃ time, watchdog.pendingLoss = some (reason, time)

variable {config : RingWatchdogConfig} {startedAt : Date} {h : List Record} {self : RingWatchdog}

/-- A new watchdog runs, and nothing was recorded. -/
theorem PhaseInvariant.init (config : RingWatchdogConfig) (startedAt : Date) :
    PhaseInvariant config startedAt [] (init config startedAt) where
  sameConfig := rfl
  progress := rfl
  quiet := fun _ => .nil
  pending := by rintro _ _ ⟨⟩
  running := fun _ => rfl
  reforming := by rintro _ _ ⟨⟩
  terminal := by rintro _ _ ⟨⟩

/-- A call that records, clears and advances nothing leaves the invariant as it is. -/
theorem PhaseInvariant.skip (hinv : PhaseInvariant config startedAt h self) {e : Record}
    (hclear : ¬ Clears e) (hnone : recorded e = []) (hprogress : progress? e = none) :
    PhaseInvariant config startedAt (h ++ [e]) self :=
  { hinv with
    progress := by rw [lastProgress_snoc, hprogress]; exact hinv.progress
    quiet := fun hq => (hinv.quiet hq).snoc hclear hnone
    pending := fun reason time hp => (hinv.pending reason time hp).snoc hclear }

/-- An evaluation can only move the phase. -/
theorem PhaseInvariant.evaluate (hinv : PhaseInvariant config startedAt h self)
    (hmax : 1 ≤ config.maxReformationAttempts) (now : Date) :
    PhaseInvariant config startedAt h (self.evaluate now).1 := by
  rcases self.evaluate_cases now with ⟨_, _, _, heq⟩ | ⟨reason, since, hphase, _, heq⟩ |
    ⟨_, _, _, _, heq⟩ | ⟨reason, recordedAt, hphase, hpending, _, heq⟩ | ⟨_, _, _, _, heq⟩
  · rw [heq]; exact hinv
  · rw [heq]
    refine ⟨hinv.sameConfig, hinv.progress, hinv.quiet, hinv.pending, by rintro ⟨⟩,
      by rintro _ _ ⟨⟩, ?_⟩
    rintro _ _ ⟨⟩
    exact (hinv.reforming reason since hphase).1
  · rw [heq]; exact hinv
  · rw [heq]
    refine ⟨hinv.sameConfig, hinv.progress, hinv.quiet, hinv.pending, by rintro ⟨⟩, ?_,
      by rintro _ _ ⟨⟩⟩
    rintro _ _ ⟨⟩
    have hattempts := hinv.running hphase
    refine ⟨⟨recordedAt, hpending⟩, ?_, ?_⟩
    · show 0 ≤ self.reformationAttempts
      omega
    · show self.reformationAttempts < _
      omega
  · rw [heq]; exact hinv

/-- Reporting losses records the first of them, when none is pending yet. -/
theorem PhaseInvariant.recordLosses (hinv : PhaseInvariant config startedAt h self) {e : Record}
    (hbefore : e.before = self) (hclear : ¬ Clears e) (hprogress : progress? e = none) :
    PhaseInvariant config startedAt (h ++ [e]) (self.recordLosses e.call.losses e.call.time) := by
  rw [recordLosses_eq]
  by_cases hrunning : self.phase = .running
  · have hrecorded : recorded e = e.call.losses := by rw [recorded, hbefore, if_pos hrunning]
    rw [if_pos hrunning]
    refine ⟨hinv.sameConfig, ?_, fun hq => ?_, fun reason time hp => ?_, hinv.running, ?_, ?_⟩
    · rw [lastProgress_snoc, hprogress]
      exact hinv.progress
    · obtain ⟨hnone, hlosses⟩ := Option.or_eq_none_iff.mp hq
      have hnil : e.call.losses = [] := by simpa using hlosses
      exact (hinv.quiet hnone).snoc hclear (hrecorded.trans hnil)
    · rcases Option.or_eq_some_iff.mp hp with hold | ⟨hnone, hnew⟩
      · exact (hinv.pending reason time hold).snoc hclear
      · obtain ⟨first, hfirst, heq⟩ := Option.map_eq_some_iff.mp hnew
        obtain ⟨rfl, rfl⟩ := Prod.mk.inj heq
        exact (hinv.quiet hnone).first hclear (hrecorded ▸ hfirst)
    · intro reason since hreforming
      rw [show self.phase = .reforming reason since from hreforming] at hrunning
      cases hrunning
    · intro reason cause hterminal
      rw [show self.phase = .terminal reason cause from hterminal] at hrunning
      cases hrunning
  · rw [if_neg hrunning]
    exact hinv.skip hclear (by rw [recorded, hbefore, if_neg hrunning]) hprogress

/-- The watchdog after it started afresh satisfies the invariant, since that looks back no
    further. -/
theorem PhaseInvariant.fresh (hinv : PhaseInvariant config startedAt h self) {e : Record}
    (hclear : Clears e) (hprogress : progress? e = some e.call.time) :
    PhaseInvariant config startedAt (h ++ [e])
      { self with
        phase := .running, pendingLoss := none, reformationAttempts := 0,
        lastProgressAt := e.call.time } where
  sameConfig := hinv.sameConfig
  progress := by rw [lastProgress_snoc, hprogress]; rfl
  quiet := fun _ => .of_clears hclear
  pending := by rintro _ _ ⟨⟩
  running := fun _ => rfl
  reforming := by rintro _ _ ⟨⟩
  terminal := by rintro _ _ ⟨⟩

/-- What the host reports about a rebuild can only move the phase and count attempts. -/
theorem PhaseInvariant.reformationFailed (hinv : PhaseInvariant config startedAt h self)
    (detail : String) (now : Date) :
    PhaseInvariant config startedAt h (self.reformationFailed detail now) := by
  cases hphase : self.phase with
  | running => simpa only [RingWatchdog.reformationFailed, hphase] using hinv
  | terminal reason cause => simpa only [RingWatchdog.reformationFailed, hphase] using hinv
  | reforming reason since =>
    obtain ⟨hpending, hnonneg, -⟩ := hinv.reforming reason since hphase
    simp only [RingWatchdog.reformationFailed, hphase]
    split
    · refine ⟨hinv.sameConfig, hinv.progress, hinv.quiet, hinv.pending, by rintro ⟨⟩,
        by rintro _ _ ⟨⟩, ?_⟩
      rintro _ _ ⟨⟩
      exact hpending
    · next hleft =>
      rw [hinv.sameConfig] at hleft
      refine ⟨hinv.sameConfig, hinv.progress, hinv.quiet, hinv.pending, by rintro ⟨⟩, ?_,
        by rintro _ _ ⟨⟩⟩
      rintro _ _ ⟨⟩
      exact ⟨hpending, by show 0 ≤ self.reformationAttempts + 1; omega, not_le.mp hleft⟩

/-- A re-formation that is not possible gives the ring up, with the reason that was recorded. -/
theorem PhaseInvariant.reformationUnavailable (hinv : PhaseInvariant config startedAt h self)
    (detail : String) (now : Date) :
    PhaseInvariant config startedAt h (self.reformationUnavailable detail now) := by
  cases hphase : self.phase with
  | running => simpa only [RingWatchdog.reformationUnavailable, hphase] using hinv
  | terminal reason cause => simpa only [RingWatchdog.reformationUnavailable, hphase] using hinv
  | reforming reason since =>
    simp only [RingWatchdog.reformationUnavailable, hphase]
    refine ⟨hinv.sameConfig, hinv.progress, hinv.quiet, hinv.pending, by rintro ⟨⟩,
      by rintro _ _ ⟨⟩, ?_⟩
    rintro _ _ ⟨⟩
    exact (hinv.reforming reason since hphase).1

/-- Only a running watchdog listens to progress. -/
theorem PhaseInvariant.recordProgress (hinv : PhaseInvariant config startedAt h self)
    (now : Date) :
    PhaseInvariant config startedAt (h ++ [machine.entry self (.recordProgress now)])
      (self.recordProgress now) := by
  have hclear : ¬ Clears (machine.entry self (.recordProgress now)) := by simp [clears_entry]
  have hnone : recorded (machine.entry self (.recordProgress now)) = [] := recorded_eq_nil rfl
  cases hphase : self.phase with
  | running =>
    simp only [RingWatchdog.recordProgress, hphase]
    refine ⟨hinv.sameConfig, ?_, fun hq => (hinv.quiet hq).snoc hclear hnone,
      fun reason time hp => (hinv.pending reason time hp).snoc hclear,
      fun _ => hinv.running hphase, by rintro _ _ ⟨⟩, by rintro _ _ ⟨⟩⟩
    rw [lastProgress_snoc]
    simp [progress?, hphase]
  | reforming reason since =>
    simp only [RingWatchdog.recordProgress, hphase]
    exact hinv.skip hclear hnone (by simp [progress?, hphase])
  | terminal reason cause =>
    simp only [RingWatchdog.recordProgress, hphase]
    exact hinv.skip hclear hnone (by simp [progress?, hphase])

/-- A re-formation that succeeded lets the watchdog run again, with nothing recorded. -/
theorem PhaseInvariant.reformationSucceeded (hinv : PhaseInvariant config startedAt h self)
    (now : Date) :
    PhaseInvariant config startedAt (h ++ [machine.entry self (.reformationSucceeded now)])
      (self.reformationSucceeded now) := by
  have hnone : recorded (machine.entry self (.reformationSucceeded now)) = [] := recorded_eq_nil rfl
  cases hphase : self.phase with
  | reforming reason since =>
    simp only [RingWatchdog.reformationSucceeded, hphase]
    exact hinv.fresh (e := machine.entry self (.reformationSucceeded now))
      (clears_entry.mpr (.inl ⟨now, rfl, by simp [isReforming, hphase]⟩))
      (by simp [progress?, hphase, Call.time])
  | running =>
    simp only [RingWatchdog.reformationSucceeded, hphase]
    exact hinv.skip (by simp [clears_entry, isReforming, hphase]) hnone
      (by simp [progress?, hphase])
  | terminal reason cause =>
    simp only [RingWatchdog.reformationSucceeded, hphase]
    exact hinv.skip (by simp [clears_entry, isReforming, hphase]) hnone
      (by simp [progress?, hphase])

/-- A generation is admitted while the ring runs, or when it was given up; then the watchdog starts
    afresh. -/
theorem PhaseInvariant.beginGeneration (hinv : PhaseInvariant config startedAt h self)
    (hmax : 1 ≤ config.maxReformationAttempts) (now : Date) :
    PhaseInvariant config startedAt (h ++ [machine.entry self (.beginGeneration now)])
      (self.beginGeneration now).1 := by
  have hevaluated := hinv.evaluate hmax now
  have hnone : recorded (machine.entry self (.beginGeneration now)) = [] := recorded_eq_nil rfl
  rcases self.beginGeneration_cases now with ⟨hphase, heq⟩ | ⟨hphase, heq⟩
  · rw [heq]
    exact hevaluated.skip (by simp [clears_entry, heq]) hnone
      (by simp [progress?, machine, RingWatchdog.perform, heq])
  · have hfresh := hevaluated.fresh (e := machine.entry self (.beginGeneration now))
      (clears_entry.mpr (.inr ⟨now, rfl, by rw [heq]⟩))
      (by simp [progress?, machine, RingWatchdog.perform, heq, Call.time])
    rw [heq]
    rw [← hevaluated.running hphase, ← hphase] at hfresh
    exact hfresh

/-- **Step lemma.**  Every call keeps the invariant of the phases. -/
theorem PhaseInvariant.perform (hinv : PhaseInvariant config startedAt h self)
    (hmax : 1 ≤ config.maxReformationAttempts) (call : Call) :
    PhaseInvariant config startedAt (h ++ [machine.entry self call]) (self.perform call).1 := by
  have hskip : (∀ now, call ≠ .reformationSucceeded now) → (∀ now, call ≠ .beginGeneration now) →
      ¬ Clears (machine.entry self call) := by
    intro hsucceeded hbegin hclears
    rcases clears_entry.mp hclears with ⟨now, rfl, -⟩ | ⟨now, rfl, -⟩
    · exact hsucceeded now rfl
    · exact hbegin now rfl
  cases call with
  | recordProgress now => exact hinv.recordProgress now
  | recordLoss reason now =>
    exact hinv.recordLosses (e := machine.entry self (.recordLoss reason now)) rfl
      (hskip (by simp) (by simp)) rfl
  | consume events now =>
    rw [show (self.perform (.consume events now)).1 = _ from consume_eq self events now]
    exact hinv.recordLosses (e := machine.entry self (.consume events now)) rfl
      (hskip (by simp) (by simp)) rfl
  | reformationSucceeded now => exact hinv.reformationSucceeded now
  | reformationUnavailable detail now =>
    exact (hinv.reformationUnavailable detail now).skip (hskip (by simp) (by simp))
      (recorded_eq_nil rfl) rfl
  | reformationFailed detail now =>
    exact (hinv.reformationFailed detail now).skip (hskip (by simp) (by simp))
      (recorded_eq_nil rfl) rfl
  | evaluate now =>
    exact (hinv.evaluate hmax now).skip (hskip (by simp) (by simp))
      (recorded_eq_nil rfl) rfl
  | beginGeneration now => exact hinv.beginGeneration hmax now

/-- **Run lemma.**  The invariant of the phases holds after every sequence of calls. -/
theorem phaseInvariant_exec (config : RingWatchdogConfig) (startedAt : Date)
    (hmax : 1 ≤ config.maxReformationAttempts) (calls : List Call) :
    PhaseInvariant config startedAt (machine.history (RingWatchdog.init config startedAt) calls)
      (machine.exec (RingWatchdog.init config startedAt) calls) :=
  machine.run_induction (P := fun _ => True) (I := PhaseInvariant config startedAt)
    (.init config startedAt) (fun _ _ call hinv _ => hinv.perform hmax call) calls
    (fun _ _ => trivial)

/-- The loss that a health report blames, if it blames one. -/
def blamed : RingHealth → Option RingLossReason
  | .reforming reason _ => some reason
  | .lost reason _ => some reason
  | .healthy | .stalled _ => none

/-- A health report blames what the watchdog then gives as its loss reason. -/
theorem blamed_evaluate (self : RingWatchdog) (now : Date) :
    blamed (self.evaluate now).2 = (self.evaluate now).1.lossReason := by
  rcases self.evaluate_cases now with ⟨_, _, hphase, heq⟩ | ⟨_, _, _, _, heq⟩ |
    ⟨_, _, hphase, _, heq⟩ | ⟨_, _, _, _, _, heq⟩ | ⟨hphase, _, _, rfl | rfl, heq⟩
  · simp [heq, blamed, lossReason, hphase]
  · simp [heq, blamed, lossReason]
  · simp [heq, blamed, lossReason, hphase]
  · simp [heq, blamed, lossReason]
  · simp [heq, blamed, lossReason, hphase]
  · simp [heq, blamed, lossReason, hphase]

/-- An evaluation that leaves the running phase finds a recorded loss overdue. -/
theorem PhaseInvariant.evaluate_leaves (hinv : PhaseInvariant config startedAt h self) {now : Date}
    (hbefore : self.phase = .running) (hafter : (self.evaluate now).1.phase ≠ .running) :
    ∃ reason recordedAt, (self.evaluate now).1.phase = .reforming reason now ∧
      FirstLoss h reason recordedAt ∧ config.graceAfterLoss ≤ now - recordedAt ∧
      config.graceAfterLoss ≤ now - lastProgress startedAt h := by
  rcases self.evaluate_cases now with ⟨_, _, hphase, _⟩ | ⟨_, _, hphase, _, _⟩ |
    ⟨_, _, hphase, _, _⟩ | ⟨reason, recordedAt, _, hpending, hgrace, heq⟩ | ⟨_, _, _, _, heq⟩
  · rw [hphase] at hbefore; cases hbefore
  · rw [hphase] at hbefore; cases hbefore
  · rw [hphase] at hbefore; cases hbefore
  · -- the deadline counts from the later of the last progress and the loss
    have hprogress := le_max_left self.lastProgressAt recordedAt
    have hrecorded := le_max_right self.lastProgressAt recordedAt
    rw [hinv.sameConfig] at hgrace
    refine ⟨reason, recordedAt, by rw [heq], hinv.pending reason recordedAt hpending, ?_, ?_⟩
    · linarith
    · rw [← hinv.progress]
      linarith
  · rw [heq] at hafter
    exact absurd hbefore hafter

/-- **Leaving the running phase** takes an evaluation at which a recorded loss is overdue. -/
theorem PhaseInvariant.leave_running (hinv : PhaseInvariant config startedAt h self) {call : Call}
    (hbefore : self.phase = .running) (hafter : (self.perform call).1.phase ≠ .running) :
    ∃ now reason recordedAt, (call = .evaluate now ∨ call = .beginGeneration now) ∧
      (self.perform call).1.phase = .reforming reason now ∧ FirstLoss h reason recordedAt ∧
      config.graceAfterLoss ≤ now - recordedAt ∧
      config.graceAfterLoss ≤ now - lastProgress startedAt h := by
  cases call with
  | evaluate now =>
    obtain ⟨reason, recordedAt, hleft⟩ := hinv.evaluate_leaves hbefore hafter
    exact ⟨now, reason, recordedAt, .inl rfl, hleft⟩
  | beginGeneration now =>
    rcases self.beginGeneration_cases now with ⟨hphase, heq⟩ | ⟨hphase, heq⟩
    · obtain ⟨reason, recordedAt, hleft, hrest⟩ := hinv.evaluate_leaves hbefore hphase
      refine ⟨now, reason, recordedAt, .inr rfl, ?_, hrest⟩
      simpa only [RingWatchdog.perform, heq] using hleft
    · simp [RingWatchdog.perform, heq, hphase] at hafter
  | recordProgress now =>
    simp [RingWatchdog.perform, RingWatchdog.recordProgress, hbefore] at hafter
  | recordLoss reason now =>
    have hkept : (self.recordLoss reason now).phase = self.phase :=
      self.recordLosses_phase [reason] now
    exact absurd (hkept.trans hbefore) hafter
  | consume events now =>
    simp [RingWatchdog.perform, consume_eq, hbefore] at hafter
  | reformationSucceeded now =>
    simp [RingWatchdog.perform, RingWatchdog.reformationSucceeded, hbefore] at hafter
  | reformationUnavailable detail now =>
    simp [RingWatchdog.perform, RingWatchdog.reformationUnavailable, hbefore] at hafter
  | reformationFailed detail now =>
    simp [RingWatchdog.perform, RingWatchdog.reformationFailed, hbefore] at hafter

/-- Phase safety of a run that made the calls `h` and led to `watchdog`. -/
structure PhaseSafety (config : RingWatchdogConfig) (startedAt : Date) (h : List Record)
    (watchdog : RingWatchdog) : Prop where
  /-- the watchdog leaves `running` only when a recorded loss is overdue -/
  leave : ∀ call, watchdog.phase = .running → (watchdog.perform call).1.phase ≠ .running →
    ∃ now reason recordedAt, (call = .evaluate now ∨ call = .beginGeneration now) ∧
      (watchdog.perform call).1.phase = .reforming reason now ∧ FirstLoss h reason recordedAt ∧
      config.graceAfterLoss ≤ now - recordedAt ∧
      config.graceAfterLoss ≤ now - lastProgress startedAt h
  /-- the reported reason is the first loss recorded since the watchdog last started afresh -/
  reason : ∀ reason, watchdog.lossReason = some reason → ∃ time, FirstLoss h reason time
  health : ∀ now, blamed (watchdog.evaluate now).2 = (watchdog.evaluate now).1.lossReason
  attempts_running : watchdog.phase = .running → watchdog.attemptCount = 0
  attempts_reforming : watchdog.isReforming = true →
    watchdog.attemptCount < config.maxReformationAttempts
  /-- a rebuild is never reported past its deadline -/
  deadline : ∀ now reason since, (watchdog.evaluate now).2 = .reforming reason since →
    now - since < config.reformationTimeout
  /-- once terminal, no call changes anything -/
  terminal : ∀ later, watchdog.isTerminal = true → machine.exec watchdog later = watchdog
  admission : ∀ now,
    (watchdog.beginGeneration now).2 = true ↔ (watchdog.evaluate now).1.phase = .running

/-- Whatever the watchdog gives as its loss reason was the first loss recorded. -/
theorem PhaseInvariant.firstLoss (hinv : PhaseInvariant config startedAt h self)
    {reason : RingLossReason} (hreason : self.lossReason = some reason) :
    ∃ time, FirstLoss h reason time := by
  cases hphase : self.phase with
  | running => simp [lossReason, hphase] at hreason
  | reforming reason' since =>
    obtain ⟨⟨time, hpending⟩, -⟩ := hinv.reforming reason' since hphase
    obtain rfl : reason' = reason := by simpa [lossReason, hphase] using hreason
    exact ⟨time, hinv.pending _ _ hpending⟩
  | terminal reason' cause =>
    obtain ⟨time, hpending⟩ := hinv.terminal reason' cause hphase
    obtain rfl : reason' = reason := by simpa [lossReason, hphase] using hreason
    exact ⟨time, hinv.pending _ _ hpending⟩

/-- A re-formation that is under way has attempts left. -/
theorem PhaseInvariant.attempts_lt (hinv : PhaseInvariant config startedAt h self)
    (hreforming : self.isReforming = true) : self.attemptCount < config.maxReformationAttempts := by
  cases hphase : self.phase with
  | running => simp [isReforming, hphase] at hreforming
  | reforming reason since => exact (hinv.reforming reason since hphase).2.2
  | terminal reason cause => simp [isReforming, hphase] at hreforming

/-- An evaluation reports a rebuild only before its deadline. -/
theorem evaluate_deadline (self : RingWatchdog) (htimeout : 0 < self.config.reformationTimeout)
    {now since : Date} {reason : RingLossReason}
    (hhealth : (self.evaluate now).2 = .reforming reason since) :
    now - since < self.config.reformationTimeout := by
  rcases self.evaluate_cases now with ⟨_, _, _, heq⟩ | ⟨_, _, _, _, heq⟩ |
    ⟨_, _, _, hbound, heq⟩ | ⟨_, _, _, _, _, heq⟩ | ⟨_, _, _, rfl | rfl, heq⟩
  · simp [heq] at hhealth
  · simp [heq] at hhealth
  · simp only [heq, RingHealth.reforming.injEq] at hhealth
    rw [← hhealth.2]
    exact hbound
  · -- a rebuild that begins now
    simp only [heq, RingHealth.reforming.injEq] at hhealth
    rw [← hhealth.2, sub_self]
    exact htimeout
  · simp [heq] at hhealth
  · simp [heq] at hhealth

/-- No run changes a terminal watchdog, by induction over its calls. -/
theorem exec_of_terminal (hterminal : self.isTerminal = true) (later : List Call) :
    machine.exec self later = self := by
  cases hphase : self.phase with
  | running => simp [isTerminal, hphase] at hterminal
  | reforming reason since => simp [isTerminal, hphase] at hterminal
  | terminal reason cause =>
    exact machine.invariant (I := fun w => w = self) rfl
      (fun w call hw => by subst hw; exact perform_of_terminal hphase call) later

/-- **Phase safety**, over every run of calls. -/
theorem phase_safety (config : RingWatchdogConfig) (startedAt : Date)
    (htimeout : 0 < config.reformationTimeout) (hmax : 1 ≤ config.maxReformationAttempts)
    (calls : List Call) :
    PhaseSafety config startedAt
      (machine.history (RingWatchdog.init config startedAt) calls)
      (machine.exec (RingWatchdog.init config startedAt) calls) := by
  have hinv := phaseInvariant_exec config startedAt hmax calls
  generalize machine.history (RingWatchdog.init config startedAt) calls = h at hinv ⊢
  generalize machine.exec (RingWatchdog.init config startedAt) calls = watchdog at hinv ⊢
  rw [← hinv.sameConfig] at htimeout
  exact {
    leave := fun call => hinv.leave_running
    reason := fun reason => hinv.firstLoss
    health := blamed_evaluate watchdog
    attempts_running := hinv.running
    attempts_reforming := hinv.attempts_lt
    deadline := fun now reason since hhealth =>
      hinv.sameConfig ▸ watchdog.evaluate_deadline htimeout hhealth
    terminal := fun later hterminal => exec_of_terminal hterminal later
    admission := watchdog.beginGeneration_iff }

/-- Phase safety of a run with a loss, a failed rebuild and a late token. -/
theorem phase_safety_default :
    PhaseSafety {} 0
      (machine.history (RingWatchdog.init {} 0)
        [.recordLoss (.memberDeparted ⟨"phone"⟩) 1, .evaluate 4, .reformationFailed "busy" 9,
          .recordProgress 10])
      (machine.exec (RingWatchdog.init {} 0)
        [.recordLoss (.memberDeparted ⟨"phone"⟩) 1, .evaluate 4, .reformationFailed "busy" 9,
          .recordProgress 10]) :=
  phase_safety {} 0 (by decide +kernel) (by decide +kernel) _

/-! ### Recorded losses -/

/-- Nothing the watchdog remembers is later than `time`. -/
def NotAfter (time : Date) (self : RingWatchdog) : Prop :=
  self.lastProgressAt ≤ time ∧
    ∀ reason recordedAt, self.pendingLoss = some (reason, recordedAt) → recordedAt ≤ time

/-- If the watchdog is running, a loss is pending that was recorded, like the last progress,
    by `time`. -/
def Overdue (time : Date) (self : RingWatchdog) : Prop :=
  self.phase = .running → self.lastProgressAt ≤ time ∧
    ∃ reason recordedAt, self.pendingLoss = some (reason, recordedAt) ∧ recordedAt ≤ time

/-- When the losses are recorded by `time`, nothing that the watchdog remembers is later. -/
theorem NotAfter.recordLosses {time : Date} (h : NotAfter time self)
    (reasons : List RingLossReason) {now : Date} (hnow : now ≤ time) :
    NotAfter time (self.recordLosses reasons now) := by
  rw [recordLosses_eq]
  split
  · refine ⟨h.1, fun reason recordedAt hpending => ?_⟩
    rcases Option.or_eq_some_iff.mp hpending with hold | ⟨-, hnew⟩
    · exact h.2 reason recordedAt hold
    · obtain ⟨_, -, heq⟩ := Option.map_eq_some_iff.mp hnew
      exact (Prod.mk.inj heq).2 ▸ hnow
  · exact h

/-- A call made by `time` keeps what is remembered by `time`. -/
theorem NotAfter.perform {time : Date} (h : NotAfter time self) {call : Call}
    (hcall : call.time ≤ time) : NotAfter time (self.perform call).1 := by
  have hevaluate : ∀ now, NotAfter time (self.evaluate now).1 := by
    intro now
    rw [evaluate_frame]
    exact h
  cases call with
  | recordProgress now =>
    simp only [RingWatchdog.perform, RingWatchdog.recordProgress]
    split
    · exact ⟨hcall, h.2⟩
    · exact h
  | recordLoss reason now => exact h.recordLosses [reason] hcall
  | consume events now =>
    rw [show (self.perform (.consume events now)).1 = _ from consume_eq self events now]
    exact h.recordLosses (lossReasons events) hcall
  | reformationSucceeded now =>
    simp only [RingWatchdog.perform, RingWatchdog.reformationSucceeded]
    split
    · exact ⟨hcall, by rintro _ _ ⟨⟩⟩
    · exact h
  | reformationUnavailable detail now =>
    simp only [RingWatchdog.perform, RingWatchdog.reformationUnavailable]
    split <;> exact h
  | reformationFailed detail now =>
    simp only [RingWatchdog.perform, RingWatchdog.reformationFailed]
    split
    · split <;> exact h
    · exact h
  | evaluate now => exact hevaluate now
  | beginGeneration now =>
    rcases self.beginGeneration_cases now with ⟨-, heq⟩ | ⟨-, heq⟩
    · simp only [RingWatchdog.perform, heq]
      exact hevaluate now
    · simp only [RingWatchdog.perform, heq]
      exact ⟨hcall, by rintro _ _ ⟨⟩⟩

/-- Reporting a loss at `time` at the latest makes the watchdog overdue from `time` on. -/
theorem NotAfter.overdue {time : Date} (h : NotAfter time self) {reasons : List RingLossReason}
    (hreasons : reasons ≠ []) {now : Date} (hnow : now ≤ time) :
    Overdue time (self.recordLosses reasons now) := by
  intro hrunning
  have hkept := h.recordLosses reasons hnow
  rw [recordLosses_phase] at hrunning
  refine ⟨hkept.1, ?_⟩
  obtain ⟨⟨reason, recordedAt⟩, hpending⟩ :
      ∃ pending, (self.recordLosses reasons now).pendingLoss = some pending := by
    rw [recordLosses_eq, if_pos hrunning]
    obtain ⟨reason, rest, rfl⟩ := List.exists_cons_of_ne_nil hreasons
    cases hold : self.pendingLoss with
    | some pending => exact ⟨pending, by simp⟩
    | none => exact ⟨(reason, now), by simp⟩
  exact ⟨reason, recordedAt, hpending, hkept.2 reason recordedAt hpending⟩

/-- Losses that are recorded later do not put an overdue one off. -/
theorem Overdue.recordLosses {time : Date} (h : Overdue time self)
    (reasons : List RingLossReason) (now : Date) :
    Overdue time (self.recordLosses reasons now) := by
  intro hrunning
  rw [recordLosses_phase] at hrunning
  obtain ⟨hlast, reason, recordedAt, hpending, hle⟩ := h hrunning
  rw [recordLosses_eq, if_pos hrunning]
  exact ⟨hlast, reason, recordedAt, by simp [hpending], hle⟩

/-- An evaluation that leaves the watchdog running changes nothing. -/
theorem Overdue.evaluated {time : Date} (h : Overdue time self) (now : Date) :
    Overdue time (self.evaluate now).1 := by
  intro hrunning
  rcases self.evaluate_cases now with ⟨_, _, _, heq⟩ | ⟨_, _, _, _, heq⟩ | ⟨_, _, _, _, heq⟩ |
    ⟨_, _, _, _, _, heq⟩ | ⟨_, _, _, _, heq⟩
  · rw [heq] at hrunning ⊢; exact h hrunning
  · rw [heq] at hrunning; cases hrunning
  · rw [heq] at hrunning ⊢; exact h hrunning
  · rw [heq] at hrunning; cases hrunning
  · rw [heq] at hrunning ⊢; exact h hrunning

/-- A call keeps the watchdog overdue, unless it starts it afresh or reports later progress. -/
theorem Overdue.perform {time : Date} (h : Overdue time self) {call : Call}
    (hclear : ¬ Clears (machine.entry self call))
    (hprogress : ∀ now, call = .recordProgress now → now ≤ time) :
    Overdue time (self.perform call).1 := by
  rw [clears_entry] at hclear
  cases call with
  | recordProgress now =>
    simp only [RingWatchdog.perform, RingWatchdog.recordProgress]
    split
    · -- progress by `time` keeps the ring overdue
      next hrunning => exact fun _ => ⟨hprogress now rfl, (h hrunning).2⟩
    · exact h
  | recordLoss reason now => exact h.recordLosses [reason] now
  | consume events now =>
    rw [show (self.perform (.consume events now)).1 = _ from consume_eq self events now]
    exact h.recordLosses (lossReasons events) now
  | reformationSucceeded now =>
    simp only [RingWatchdog.perform, RingWatchdog.reformationSucceeded]
    split
    · -- this is one of the two calls that clear a loss
      next hphase => exact absurd (.inl ⟨now, rfl, by simp [isReforming, hphase]⟩) hclear
    · exact h
  | reformationUnavailable detail now =>
    simp only [RingWatchdog.perform, RingWatchdog.reformationUnavailable]
    split
    · rintro ⟨⟩
    · exact h
  | reformationFailed detail now =>
    simp only [RingWatchdog.perform, RingWatchdog.reformationFailed]
    split
    · split <;> rintro ⟨⟩
    · exact h
  | evaluate now => exact h.evaluated now
  | beginGeneration now =>
    rcases self.beginGeneration_cases now with ⟨-, heq⟩ | ⟨-, heq⟩
    · simp only [RingWatchdog.perform, heq]
      exact h.evaluated now
    · -- and this is the other
      exact absurd (.inr ⟨now, rfl, by rw [heq]⟩) hclear

/-- An overdue watchdog is rebuilding or lost once the grace has passed. -/
theorem Overdue.evaluate {now : Date} (h : Overdue (now - self.config.graceAfterLoss) self) :
    (∃ reason, blamed (self.evaluate now).2 = some reason) ∧
      (self.beginGeneration now).2 = false := by
  have hleft : (self.evaluate now).1.phase ≠ .running := by
    intro hrunning
    rcases self.evaluate_cases now with ⟨_, _, hphase, heq⟩ | ⟨_, _, _, _, heq⟩ |
      ⟨_, _, hphase, _, heq⟩ | ⟨_, _, _, _, _, heq⟩ | ⟨hphase, hgrace, _, _, heq⟩
    · rw [heq] at hrunning; exact absurd (hphase.symm.trans hrunning) (by simp)
    · rw [heq] at hrunning; cases hrunning
    · rw [heq] at hrunning; exact absurd (hphase.symm.trans hrunning) (by simp)
    · rw [heq] at hrunning; cases hrunning
    · obtain ⟨hlast, reason, recordedAt, hpending, hle⟩ := h hphase
      have hmax := max_le hlast hle
      linarith [hgrace reason recordedAt hpending]
  refine ⟨?_, ?_⟩
  · rw [blamed_evaluate]
    cases hphase : (self.evaluate now).1.phase with
    | running => exact absurd hphase hleft
    | reforming reason since => exact ⟨reason, by simp [lossReason, hphase]⟩
    | terminal reason cause => exact ⟨reason, by simp [lossReason, hphase]⟩
  · rw [← Bool.not_eq_true, beginGeneration_iff]
    exact hleft

/-- At `now` the ring counts as broken: rebuilding or lost, and no generation begins. -/
def Broken (watchdog : RingWatchdog) (now : Date) : Prop :=
  ((∃ reason since, (watchdog.evaluate now).2 = .reforming reason since) ∨
      ∃ reason cause, (watchdog.evaluate now).2 = .lost reason cause) ∧
    (watchdog.beginGeneration now).2 = false

/-- A loss that is overdue by the grace period breaks the ring when the watchdog is asked. -/
theorem Overdue.broken {now : Date} (h : Overdue (now - self.config.graceAfterLoss) self) :
    Broken self now := by
  obtain ⟨⟨reason, hblamed⟩, hbegin⟩ := h.evaluate
  refine ⟨?_, hbegin⟩
  cases hhealth : (self.evaluate now).2 with
  | healthy => rw [hhealth] at hblamed; cases hblamed
  | stalled since => rw [hhealth] at hblamed; cases hblamed
  | reforming reason' since => exact .inl ⟨reason', since, rfl⟩
  | lost reason' cause => exact .inr ⟨reason', cause, rfl⟩

/-- A run whose calls are all made by `time` remembers nothing later. -/
theorem notAfter_exec (config : RingWatchdogConfig) {startedAt time : Date}
    (hstart : startedAt ≤ time) {calls : List Call} (hcalls : ∀ call ∈ calls, call.time ≤ time) :
    NotAfter time (machine.exec (RingWatchdog.init config startedAt) calls) := by
  refine machine.run_induction (P := fun e => e.call.time ≤ time)
    (I := fun _ w => NotAfter time w) ⟨hstart, by rintro _ _ ⟨⟩⟩
    (fun _ w call hw hcall => hw.perform hcall) calls ?_
  intro e he
  obtain ⟨pre, call, post, rfl, rfl⟩ := machine.mem_history.mp he
  exact hcalls call (by simp)

/-- A call that reports a loss by `time` leaves the watchdog overdue. -/
theorem NotAfter.perform_overdue {time : Date} (h : NotAfter time self) {loss : Call}
    (hloss : loss.losses ≠ []) (htime : loss.time ≤ time) :
    Overdue time (self.perform loss).1 := by
  cases loss with
  | recordLoss reason now => exact h.overdue (show [reason] ≠ [] from hloss) htime
  | consume events now =>
    rw [show (self.perform (.consume events now)).1 = _ from consume_eq self events now]
    exact h.overdue hloss htime
  | _ => exact absurd rfl hloss

/-- **Run lemma.**  The watchdog stays overdue along every run that does not start it afresh
    and reports no progress after `time`. -/
theorem Overdue.exec {time : Date} (h : Overdue time self) {calls : List Call}
    (hkept : ∀ e ∈ machine.history self calls, ¬ Clears e)
    (hprogress : ∀ now, .recordProgress now ∈ calls → now ≤ time) :
    Overdue time (machine.exec self calls) := by
  refine machine.run_induction
    (P := fun e => ¬ Clears e ∧ ∀ now, e.call = .recordProgress now → now ≤ time)
    (I := fun _ w => Overdue time w) h
    (fun _ w call hw hcall => hw.perform hcall.1 hcall.2) calls ?_
  intro e he
  refine ⟨hkept e he, fun now hnow => ?_⟩
  obtain ⟨pre, call, post, rfl, rfl⟩ := machine.mem_history.mp he
  obtain rfl : call = .recordProgress now := hnow
  exact hprogress now (by simp)

/-- No call changes the bounds of the watchdog. -/
theorem exec_config (config : RingWatchdogConfig) (startedAt : Date) (calls : List Call) :
    (machine.exec (RingWatchdog.init config startedAt) calls).config = config :=
  machine.invariant (I := fun w => w.config = config) rfl
    (fun w call hw => (perform_config w call).trans hw) calls

/-- **A recorded loss is kept.**  After a call that reports a loss, in whatever phase, and as
    long as no rebuild succeeds and no generation is admitted, the ring counts as broken from
    the moment the grace has passed since the loss and since the progress reported after it. -/
theorem recorded_loss_kept (config : RingWatchdogConfig) (startedAt : Date) (before : List Call)
    (loss : Call) (after : List Call) (now : Date)
    (htimes : (startedAt :: (before ++ loss :: after).map Call.time ++ [now]).Pairwise (· ≤ ·))
    (hloss : loss.losses ≠ [])
    (hkept : ∀ e ∈ machine.history
      (machine.exec (RingWatchdog.init config startedAt) (before ++ [loss])) after, ¬ Clears e)
    (hgrace : config.graceAfterLoss ≤ now - loss.time)
    (hprogress : ∀ time, .recordProgress time ∈ after → config.graceAfterLoss ≤ now - time) :
    Broken (machine.exec (RingWatchdog.init config startedAt) (before ++ loss :: after)) now := by
  have hearly : startedAt ≤ loss.time ∧ ∀ call ∈ before, call.time ≤ loss.time := by
    simp only [List.cons_append, List.map_append, List.map_cons, List.append_assoc,
      List.pairwise_cons, List.pairwise_append, List.mem_append, List.mem_cons] at htimes
    refine ⟨htimes.1 _ (.inr (.inl rfl)), fun call hcall => ?_⟩
    exact htimes.2.2.2 _ (List.mem_map_of_mem hcall) _ (.inl rfl)
  have hle : loss.time ≤ now - config.graceAfterLoss := by linarith
  -- nothing later than the loss is remembered when it is reported, so it leaves the watchdog
  -- overdue
  have hnotAfter : NotAfter (now - config.graceAfterLoss)
      (machine.exec (RingWatchdog.init config startedAt) before) :=
    notAfter_exec config (hearly.1.trans hle) fun call hcall => (hearly.2 call hcall).trans hle
  have hrecorded : Overdue (now - config.graceAfterLoss)
      (machine.exec (RingWatchdog.init config startedAt) (before ++ [loss])) := by
    rw [machine.exec_snoc]
    exact hnotAfter.perform_overdue hloss hle
  -- and nothing that follows changes that
  have hoverdue : Overdue (now - config.graceAfterLoss)
      (machine.exec (RingWatchdog.init config startedAt) (before ++ loss :: after)) := by
    rw [show before ++ loss :: after = (before ++ [loss]) ++ after by simp, machine.exec_append]
    exact hrecorded.exec hkept fun time htime => by linarith [hprogress time htime]
  refine Overdue.broken ?_
  rw [exec_config]
  exact hoverdue

/-- A loss reported while the ring is rebuilding for another one, and a retry. -/
theorem recorded_loss_kept_two_losses :
    Broken (machine.exec (RingWatchdog.init {} 0)
      ([.recordLoss (.memberDeparted ⟨"phone"⟩) 1, .evaluate 4] ++
        .recordLoss (.memberUnreachable ⟨"laptop"⟩) 5 ::
        [.reformationFailed "busy" 6, .recordProgress 7])) 9 := by
  refine recorded_loss_kept {} 0
    [.recordLoss (.memberDeparted ⟨"phone"⟩) 1, .evaluate 4]
    (.recordLoss (.memberUnreachable ⟨"laptop"⟩) 5)
    [.reformationFailed "busy" 6, .recordProgress 7] 9
    (by decide +kernel) (by decide) ?_ (by decide +kernel) ?_
  · intro e he
    obtain ⟨pre, call, post, hcalls, rfl⟩ := machine.mem_history.mp he
    have hcall : call ∈ [Call.reformationFailed "busy" 6, .recordProgress 7] := by simp [hcalls]
    rw [clears_entry]
    rcases List.mem_cons.mp hcall with rfl | hcall
    · simp
    · rw [List.mem_singleton.mp hcall]
      simp
  · intro time htime
    simp only [List.mem_cons, List.not_mem_nil, reduceCtorEq, Call.recordProgress.injEq, or_false,
      false_or] at htime
    subst htime
    decide +kernel

/-- The call reports the success of a rebuild entered at `time` or later. -/
def SucceedsSince (time : Date) (e : Record) : Prop :=
  ∃ now reason since, e.call = .reformationSucceeded now ∧
    e.before.phase = .reforming reason since ∧ time ≤ since

/-- The law without its exceptions: only the success of a later rebuild ends a recorded loss. -/
def LossKept (config : RingWatchdogConfig) (startedAt : Date) (before : List Call) (loss : Call)
    (after : List Call) (now : Date) : Prop :=
  (startedAt :: (before ++ loss :: after).map Call.time ++ [now]).Pairwise (· ≤ ·) →
    loss.losses ≠ [] →
    (∀ e ∈ machine.history
      (machine.exec (RingWatchdog.init config startedAt) (before ++ [loss])) after,
      ¬ SucceedsSince loss.time e) →
    config.graceAfterLoss ≤ now - loss.time →
    (∀ time, .recordProgress time ∈ after ∨ .beginGeneration time ∈ after →
      config.graceAfterLoss ≤ now - time) →
    Broken (machine.exec (RingWatchdog.init config startedAt) (before ++ loss :: after)) now

/-- A generation admitted within the grace, and the success of an earlier rebuild, both end a
    recorded loss. -/
theorem recorded_loss_forgotten :
    ¬ LossKept { graceAfterLoss := 5 } 0 [] (.recordLoss (.memberDeparted ⟨"phone"⟩) 0)
        [.beginGeneration 1] 6 ∧
    ¬ LossKept {} 0 [.recordLoss (.memberDeparted ⟨"phone"⟩) 0, .evaluate 2]
        (.recordLoss (.memberDeparted ⟨"laptop"⟩) 3) [.reformationSucceeded 4] 6 := by
  have hbroken : ∀ {watchdog : RingWatchdog} {now : Date},
      (watchdog.beginGeneration now).2 = true → ¬ Broken watchdog now := by
    rintro watchdog now hbegin ⟨-, hrefused⟩
    rw [hbegin] at hrefused
    cases hrefused
  constructor
  · intro h
    refine hbroken (by decide +kernel) (h (by decide +kernel) (by decide) ?_ (by decide +kernel) ?_)
    · intro e he
      obtain rfl := List.mem_singleton.mp he
      rintro ⟨_, _, _, ⟨⟩, -⟩
    · intro time htime
      obtain rfl : time = 1 := by simpa using htime
      decide +kernel
  · intro h
    refine hbroken (by decide +kernel) (h (by decide +kernel) (by decide) ?_ (by decide +kernel) ?_)
    · intro e he
      obtain rfl := List.mem_singleton.mp he
      rintro ⟨now, reason, since, -, hphase, hle⟩
      -- the rebuild that succeeds was entered at `2`
      have hentered : (machine.exec (RingWatchdog.init {} 0)
          [.recordLoss (.memberDeparted ⟨"phone"⟩) 0, .evaluate 2,
            .recordLoss (.memberDeparted ⟨"laptop"⟩) 3]).phase
          = .reforming (.memberDeparted ⟨"phone"⟩) 2 := by decide +kernel
      obtain rfl := (Phase.reforming.inj (hentered.symm.trans hphase)).2
      exact absurd hle (by decide +kernel)
    · simp

end RingWatchdog

end ShareCompute.Core
