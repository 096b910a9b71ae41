import Mathlib.Data.List.TakeWhile
import ShareCompute.Simulation.HubRuns

namespace ShareCompute.Simulation

open ShareCompute.Library ShareCompute.Cluster

/-!
# When the hub succeeds

`run_hub` returns 0 when `pipeline_done` is set and the failure reasons that it took before are
none.  The threads set the event for a `done` of the frontend and for every failure, which they
record first.  Three things are not looked at: whether the `done` was sent before the plan, how
many tokens it reports, and whether a failure was recorded between the two tests.

* `Hub.orderly` — none of the three happens.
* `Hub.Clean` — then the event is set only for a failure that was recorded or for a pipeline
  that is finished.
* `hub_success` — success is sound then; `early_done` is a run where it is not.
-/

namespace Hub

variable {φ σ : Type} {python : Conversions φ} {frontendPlatform : String}
  {planPortableShards : List (PortablePeer φ) → Option σ}
  {guard : Hub φ σ → Action → Bool} {s s' : Hub φ σ} {effects : List (Effect σ)}

/-! ### What was finished -/

/-- The test `msg.get("type") == "done"` of what a client has sent. -/
def isDone : Option Json → Bool
  | some (.dict msg) => (Dict.get msg "type").isStr "done"
  | _ => false

/-- A `done` that reports `tokenCount` tokens, and thus all of them. -/
def isFullDone (tokenCount : ℤ) : Option Json → Bool
  | some (.dict msg) =>
      (Dict.get msg "type").isStr "done" && (Dict.get msg "tokens").isInt tokenCount
  | _ => false

/-- The client of `conn` sends a `done` that reports `tokenCount` tokens. -/
def sendsFullDone (tokenCount : ℤ) (conn : ℕ) (l : Label σ) : Bool :=
  match l.1 with
  | .send c value => decide (c = conn) && isFullDone tokenCount value
  | _ => false

/-- The client sends such a `done` after the broadcast has ended. -/
def finishesAfterBroadcast (tokenCount : ℤ) (conn : ℕ) (ls : List (Label σ)) : Bool :=
  (ls.dropWhile (fun l => !endsBroadcast l)).any (sendsFullDone tokenCount conn)

/-- The frontend reported every token after the broadcast. -/
def Finished (tokenCount : ℤ) (frontendPlatform : String) (ls : List (Label σ)) (s : Hub φ σ) :
    Prop :=
  ∃ conn, s.clientConns.lookup frontendPlatform = some conn ∧
    finishesAfterBroadcast tokenCount conn ls = true

/-- The frontend's thread takes a `done` only if it was sent after the broadcast and reports
    every token. -/
def lateDone (tokenCount : ℤ) (frontendPlatform : String) (s : Hub φ σ) : Action → Bool
  | .read conn .line =>
      match s.handlers conn, s.lines conn with
      | some (.reading platform), line :: _ =>
          !(decide (platform = frontendPlatform) && isDone line.value) ||
            (line.late && isFullDone tokenCount line.value)
      | _, _ => true
  | _ => true

/-- No failure is recorded while the main thread decides on the copy of none. -/
def steadyReasons (s : Hub φ σ) : Action → Bool
  | .record _ =>
      match s.main with
      | .deciding [] => false
      | _ => true
  | _ => true

/-- The conditions on a step together: nothing happens that the main thread does not look at when it
    decides to return 0. -/
def orderly (tokenCount : ℤ) (frontendPlatform : String) (s : Hub φ σ) (a : Action) : Bool :=
  s.lateDone tokenCount frontendPlatform a && s.steadyReasons a

variable {tokenCount : ℤ} {ls : List (Label σ)}

/-- The broadcast stays ended, so what was sent after it remains so. -/
theorem finishesAfterBroadcast_append {conn : ℕ}
    (h : finishesAfterBroadcast tokenCount conn ls = true) (l : Label σ) :
    finishesAfterBroadcast tokenCount conn (ls ++ [l]) = true := by
  obtain ⟨l', hmem, hsends⟩ := List.any_eq_true.mp h
  have hne : (ls.dropWhile (fun l => !endsBroadcast l)).isEmpty = false := by
    rw [List.isEmpty_eq_false_iff]
    exact List.ne_nil_of_mem hmem
  rw [finishesAfterBroadcast, List.dropWhile_append, hne]
  exact List.any_eq_true.mpr ⟨l', List.mem_append_left _ hmem, hsends⟩

/-- A `done` that is sent when the broadcast has ended. -/
theorem finishesAfterBroadcast_send {value : Option Json} (conn : ℕ)
    (hended : ls.any endsBroadcast = true) (hdone : isFullDone tokenCount value = true) :
    finishesAfterBroadcast tokenCount conn (ls ++ [(.send conn value, [])]) = true := by
  obtain ⟨l, hmem, hends⟩ := List.any_eq_true.mp hended
  have hne : (ls.dropWhile (fun l => !endsBroadcast l)).isEmpty = false := by
    rw [List.isEmpty_eq_false_iff, Ne, List.dropWhile_eq_nil_iff]
    intro hall
    simpa [hends] using hall l hmem
  rw [finishesAfterBroadcast, List.dropWhile_append, hne]
  refine List.any_eq_true.mpr ⟨(.send conn value, []), ?_, ?_⟩
  · exact List.mem_append_right _ (List.mem_singleton_self _)
  · simpa [sendsFullDone] using hdone

/-- A pipeline that is finished stays so for the rest of the run, as long as the frontend's seat is
    the same. -/
theorem Finished.append (h : Finished tokenCount frontendPlatform ls s) (l : Label σ)
    (hconns : s'.clientConns.lookup frontendPlatform = s.clientConns.lookup frontendPlatform) :
    Finished tokenCount frontendPlatform (ls ++ [l]) s' := by
  obtain ⟨conn, hconn, hfinishes⟩ := h
  exact ⟨conn, hconns.trans hconn, finishesAfterBroadcast_append hfinishes l⟩

/-- What `orderly` says of the frontend's `done`. -/
theorem late_of_orderly {conn : ℕ} {line : Line} {rest : List Line} {msg : Dict}
    (hreading : s.handlers conn = some (.reading frontendPlatform))
    (hlines : s.lines conn = line :: rest) (hvalue : line.value = some (.dict msg))
    (htype : (msg.get "type").isStr "done" = true)
    (h : orderly tokenCount frontendPlatform s (.read conn .line) = true) :
    line.late = true ∧ isFullDone tokenCount line.value = true := by
  have hdone : isDone line.value = true := by rw [hvalue]; exact htype
  simpa [orderly, lateDone, steadyReasons, hreading, hlines, hdone] using h

/-- In an orderly step no failure is recorded while the main thread, having copied no reason, has
    yet to test the event. -/
theorem not_deciding_of_orderly {conn : ℕ}
    (h : orderly tokenCount frontendPlatform s (.record conn) = true) :
    s.main ≠ .deciding [] := by
  intro hmain
  simp [orderly, steadyReasons, hmain] at h

/-- Some thread is about to set the event, or has set it. -/
def Signalled (s : Hub φ σ) : Prop :=
  s.pipelineDone = true ∨ ∃ conn, s.handlers conn = some .setting

/-- The event is set for a reason. -/
structure Clean (tokenCount : ℤ) (frontendPlatform : String) (ls : List (Label σ))
    (s : Hub φ σ) : Prop where
  lines : ∀ conn, ∀ line ∈ s.lines conn, line.late = true →
    isFullDone tokenCount line.value = true → finishesAfterBroadcast tokenCount conn ls = true
  signalled : (s.main.exitCode = none) → s.Signalled →
    s.failReason ≠ [] ∨ Finished tokenCount frontendPlatform ls s
  deciding : s.main = .deciding [] → s.failReason = []

namespace Clean

/-- At the start the event is not set and nobody has recorded a reason, so there is nothing to
    account for. -/
theorem start (expected : List String) (frontendPlatform : String) :
    Clean tokenCount frontendPlatform [] (Hub.start expected frontendPlatform : Hub φ σ) where
  lines _ _ h := by cases h
  signalled _ h := by
    rcases h with hdone | ⟨_, hsetting⟩
    · cases hdone
    · cases hsetting
  deciding h := by
    simp only [Hub.start] at h
    split at h <;> cases h

/-- Nothing is signalled and nothing is sent. -/
theorem same (h : Clean tokenCount frontendPlatform ls s) (l : Label σ)
    (hlines : ∀ conn, s'.lines conn ⊆ s.lines conn)
    (hmain : (s'.main.exitCode = none) → s.main.exitCode = none)
    (hsignalled : s'.Signalled → s.Signalled) (hreason : s'.failReason = s.failReason)
    (hconns : ∀ conn, s.clientConns.lookup frontendPlatform = some conn →
      s'.clientConns.lookup frontendPlatform = some conn)
    (hdeciding : s'.main = .deciding [] → s'.failReason = []) :
    Clean tokenCount frontendPlatform (ls ++ [l]) s' where
  lines conn line hline hlate hfull :=
    finishesAfterBroadcast_append (h.lines conn line (hlines conn hline) hlate hfull) l
  signalled hrunning hsig := by
    rcases h.signalled (hmain hrunning) (hsignalled hsig) with hfailed | ⟨conn, hconn, hfinishes⟩
    · exact .inl (hreason ▸ hfailed)
    · exact .inr ⟨conn, hconns conn hconn, finishesAfterBroadcast_append hfinishes l⟩
  deciding := hdeciding

/-- The main thread moves on, unless it has returned, and the run stays clean. -/
theorem main (h : Clean tokenCount frontendPlatform ls s) (l : Label σ) {main : MainPoint σ}
    (hrunning : s.main.exitCode = none)
    (hdeciding : main = .deciding [] → s.failReason = []) :
    Clean tokenCount frontendPlatform (ls ++ [l]) { s with main := main } :=
  h.same l (fun _ => List.Subset.refl _) (fun _ => hrunning) id rfl (fun _ => id) hdeciding

/-- The main thread returns, and the run stays clean. -/
theorem return_ (h : Clean tokenCount frontendPlatform ls s) (l : Label σ) (code : ℕ) :
    Clean tokenCount frontendPlatform (ls ++ [l]) (s.return_ code) where
  lines conn line hline hlate hfull :=
    finishesAfterBroadcast_append (h.lines conn line hline hlate hfull) l
  signalled hrunning := by cases hrunning
  deciding heq := by cases heq

/-- A client sends a line, which is filed behind those it has sent before. -/
theorem send (h : Clean tokenCount frontendPlatform ls s) (hprogress : Progress ls s) (conn : ℕ)
    (value : Option Json) :
    Clean tokenCount frontendPlatform (ls ++ [(.send conn value, [])])
      (s.setLines conn (s.lines conn ++ [⟨value, s.main.afterBroadcast⟩])) where
  lines c line hline hlate hfull := by
    change line ∈ Function.update s.lines conn _ c at hline
    rcases eq_or_ne c conn with rfl | hne
    · rw [Function.update_self] at hline
      rcases List.mem_append.mp hline with hbefore | hnow
      · exact finishesAfterBroadcast_append (h.lines c line hbefore hlate hfull) _
      · obtain rfl := List.mem_singleton.mp hnow
        exact finishesAfterBroadcast_send c (hprogress.ended hlate) hfull
    · rw [Function.update_of_ne hne] at hline
      exact finishesAfterBroadcast_append (h.lines c line hline hlate hfull) _
  signalled hrunning hsig :=
    (h.signalled hrunning hsig).imp_right (fun hfinished => hfinished.append _ rfl)
  deciding := h.deciding

/-- A thread sets the event, or is about to: the failure is recorded, or the pipeline is
    finished. -/
theorem signal (h : Clean tokenCount frontendPlatform ls s) (l : Label σ)
    (hlines : ∀ conn, s'.lines conn ⊆ s.lines conn)
    (hsignalled : (s'.main.exitCode = none) →
      s'.failReason ≠ [] ∨ Finished tokenCount frontendPlatform (ls ++ [l]) s')
    (hdeciding : s'.main = .deciding [] → s'.failReason = []) :
    Clean tokenCount frontendPlatform (ls ++ [l]) s' where
  lines conn line hline hlate hfull :=
    finishesAfterBroadcast_append (h.lines conn line (hlines conn hline) hlate hfull) l
  signalled hrunning _ := hsignalled hrunning
  deciding := hdeciding

/-- A thread that moves on is not about to set the event. -/
theorem signalled_of_setHandler {conn : ℕ} {point : HandlerPoint φ}
    (hdone : s'.pipelineDone = s.pipelineDone)
    (hhandlers : s'.handlers = Function.update s.handlers conn (some point))
    (hpoint : point ≠ .setting) (h : s'.Signalled) : s.Signalled := by
  rcases h with hset | ⟨c, hsetting⟩
  · exact .inl (hdone ▸ hset)
  · rcases handlers_of_update hhandlers hsetting with ⟨-, heq⟩ | ⟨-, hbefore⟩
    · exact absurd heq.symm hpoint
    · exact .inr ⟨c, hbefore⟩

/-- A handler that moves on by the code of its thread is not about to set the event; only a `done`
    or a failure leads there. -/
theorem not_setting_of_follows {conn : ℕ} {point : HandlerPoint φ}
    (h : Follows frontendPlatform s conn point) : point ≠ .setting := by
  rintro rfl
  cases h with
  | quiet h => cases h
  | seated _ _ hseat => cases hseat

/-- Every orderly turn keeps the run clean, by the cases of who takes it and what has been read. -/
theorem turn {l : Label σ} (h : Clean tokenCount frontendPlatform ls s)
    (hseats : Seats frontendPlatform s) (hprogress : Progress ls s)
    (horderly : orderly tokenCount frontendPlatform s l.1 = true)
    (ht : Turn frontendPlatform s l.1 s' l.2) :
    Clean tokenCount frontendPlatform (ls ++ [l]) s' := by
  obtain ⟨a, effects⟩ := l
  cases ht with
  | @send conn value => exact h.send hprogress conn value
  | thread hfollows hlines =>
    have hpoint := not_setting_of_follows hfollows
    exact h.same _ hlines id (signalled_of_setHandler rfl rfl hpoint) rfl (fun _ => id) h.deciding
  | @done conn line rest msg hreading hlines hvalue htype =>
    -- the line was sent after the broadcast, by the connection that is seated
    obtain ⟨hlate, hfull⟩ := late_of_orderly hreading hlines hvalue htype horderly
    have hconn := hseats.seated conn _ frontendPlatform hreading rfl
    have hfinishes := h.lines conn line (by rw [hlines]; exact List.mem_cons_self) hlate hfull
    refine h.signal _ (subset_setLines hlines) (fun _ => .inr ⟨conn, hconn, ?_⟩) h.deciding
    exact finishesAfterBroadcast_append hfinishes _
  | @seat conn ok peer point joined hregistering hfree hjoined hpoint =>
    have hnot : point ≠ .setting := by
      rintro rfl
      rcases hpoint with hpoint | hquiet
      · cases hpoint
      · cases hquiet
    refine h.same _ (fun _ => List.Subset.refl _) id
      (signalled_of_setHandler rfl rfl hnot) rfl (fun c hlookup => ?_) h.deciding
    -- the seat that is taken was free, so it is not the frontend's
    have hne : frontendPlatform ≠ peer.platform := fun heq => hfree (by
      rw [hseats.conns, ← heq]
      exact AList.lookup_isSome.mp (by rw [hlookup]; rfl))
    show (s.clientConns.insert peer.platform conn).lookup frontendPlatform = some c
    rw [AList.lookup_insert_ne hne, hlookup]
  | @record conn reason hfailing =>
    refine h.signal _ (fun _ => List.Subset.refl _) (fun _ => .inl ?_) (fun hmain => ?_)
    · show s.failReason ++ [reason] ≠ []
      simp
    · have hnot : s.main ≠ .deciding [] := not_deciding_of_orderly horderly
      exact absurd hmain hnot
  | @set conn hsetting =>
    refine h.signal _ (fun _ => List.Subset.refl _) (fun hrunning => ?_) h.deciding
    exact (h.signalled hrunning (.inr ⟨conn, hsetting⟩)).imp_right (fun hf => hf.append _ rfl)
  | leave hmain | joined hmain | plan hmain | snapshot hmain | sendPlan hmain
  | broadcastEnded hmain | stopWaiting hmain =>
    exact h.main _ (by rw [hmain]; rfl) (by simp)
  | collect hmain => exact h.main _ (by rw [hmain]; rfl) (by simp)
  | failed => exact h.return_ _ 1
  | succeeded => exact h.return_ _ 0

end Clean

/-! ### Success -/

/-- What a return of 0 is to mean, at the decision. -/
structure Success (tokenCount : ℤ) (frontendPlatform : String) (ls : List (Label σ))
    (s : Hub φ σ) : Prop where
  seated : ∀ seat ∈ portableSeats, ∃ peer, s.connected.lookup seat = some peer ∧
    peer.role = if seat = frontendPlatform then "frontend" else "worker"
  sent : ∃ shards, .planned shards ∈ events ls ∧ ∀ seat ∈ portableSeats,
    ∃ conn, s.clientConns.lookup seat = some conn ∧ .planSent conn shards ∈ events ls
  finished : Finished tokenCount frontendPlatform ls s
  clean : s.failReason = []

/-- In every run of steps that meet `guard`, the hub returns 0 only on success. -/
def Sound (python : Conversions φ) (frontendPlatform : String)
    (planPortableShards : List (PortablePeer φ) → Option σ) (expected : List String)
    (tokenCount : ℤ) (guard : Hub φ σ → Action → Bool) : Prop :=
  ∀ ls s l s',
    Trace (Steps python frontendPlatform planPortableShards guard)
      (start expected frontendPlatform) ls s →
    Steps python frontendPlatform planPortableShards guard s l s' →
    s.main.exitCode = none → s'.main.exitCode = some 0 → Success tokenCount frontendPlatform ls s

/-- When the main thread tests the event, having copied no reason, and finds it set, the pipeline is
    finished. -/
theorem success_of_deciding (hseats : Seats frontendPlatform s) (hprogress : Progress ls s)
    (hclean : Clean tokenCount frontendPlatform ls s) (hmain : s.main = .deciding [])
    (hdone : s.pipelineDone = true) : Success tokenCount frontendPlatform ls s := by
  have hreasons : s.failReason = [] := hclean.deciding hmain
  have hjoined : ∀ seat ∈ portableSeats, seat ∈ s.connected :=
    hprogress.seats (by rw [hmain]; rfl)
  refine ⟨fun seat hseat => ?_, ?_, ?_, hreasons⟩
  · have hmem := AList.lookup_isSome.mpr (hjoined seat hseat)
    obtain ⟨peer, hpeer⟩ := Option.isSome_iff_exists.mp hmem
    obtain ⟨rfl, hadmissible⟩ := hseats.peers seat peer hpeer
    exact ⟨peer, hpeer, hadmissible.role⟩
  · obtain ⟨shards, hplanned, hsent⟩ := hprogress.sent (by rw [hmain]; rfl)
    refine ⟨shards, hplanned, fun seat hseat => ?_⟩
    have hmem := (hseats.conns seat).mp (hjoined seat hseat)
    obtain ⟨conn, hconn⟩ := Option.isSome_iff_exists.mp (AList.lookup_isSome.mpr hmem)
    exact ⟨conn, hconn, hsent conn (Dictionary.mem_values.mpr ⟨seat, hconn⟩)⟩
  · exact (hclean.signalled (by rw [hmain]; rfl) (.inl hdone)).resolve_left (absurd hreasons)

/-- The only step to a return of 0. -/
theorem deciding_of_exitCode {a : Action} (h : Turn frontendPlatform s a s' effects)
    (hrunning : s.main.exitCode = none) (hzero : s'.main.exitCode = some 0) :
    s.main = .deciding [] ∧ s.pipelineDone = true := by
  cases h with
  | succeeded hmain hdone => exact ⟨hmain, hdone⟩
  | send | thread | done | seat | record | set =>
    change s.main.exitCode = some 0 at hzero
    rw [hrunning] at hzero
    cases hzero
  | _ => cases hzero

/-- **Success is sound** in every orderly run. -/
theorem hub_success (python : Conversions φ) (frontendPlatform : String)
    (planPortableShards : List (PortablePeer φ) → Option σ) (expected : List String)
    (tokenCount : ℤ) :
    Sound python frontendPlatform planPortableShards expected tokenCount
      (orderly tokenCount frontendPlatform) := by
  intro ls s l s' htrace hstep hrunning hzero
  have hinv : Seats frontendPlatform s ∧ Progress ls s ∧
      Clean tokenCount frontendPlatform ls s := by
    refine Trace.invariant
      (I := fun ls s => Seats frontendPlatform s ∧ Progress ls s ∧
        Clean tokenCount frontendPlatform ls s) ?_ ?_ htrace
    · exact ⟨.start expected frontendPlatform, .start expected frontendPlatform,
        .start expected frontendPlatform⟩
    · intro ls s l s' _ ⟨hseats, hprogress, hclean⟩ hs
      have ht := turn_of_steps hs
      exact ⟨hseats.turn ht, hprogress.turn hseats ht,
        hclean.turn hseats hprogress (guard_of_steps hs) ht⟩
  obtain ⟨hseats, hprogress, hclean⟩ := hinv
  -- a return of 0 is decided on no reasons and on the event
  obtain ⟨hmain, hdone⟩ := deciding_of_exitCode (turn_of_steps hstep) hrunning hzero
  exact success_of_deciding hseats hprogress hclean hmain hdone

/-! ### Runs that are not orderly -/

/-- Enough of Python for the messages below. -/
def someConversions : Conversions ℚ where
  str
    | .str text => text
    | _ => ""
  float
    | .int n => some n
    | .float q => q
    | _ => none
  int
    | .int n => some n
    | _ => none
  str_str _ := rfl

/-- Layers of a model of 32, in proportion to the memory. -/
def eightAndTwentyFour : List (PortablePeer ℚ) → Option (List (String × ℕ × ℕ)) :=
  fun _ => some [("ios", 0, 8), ("windows", 8, 32)]

/-- The `join` of a platform that listens for the data plane at a port. -/
def joins (platform : String) (dataPort : ℤ) : Option Json :=
  some (.dict [("type", .str "join"), ("platform", .str platform), ("data_port", .int dataPort)])

/-- The `done` of a frontend, with the number of tokens that it reports. -/
def reportsDone (tokens : ℤ) : Option Json :=
  some (.dict [("type", .str "done"), ("tokens", .int tokens)])

/-- The client of `conn` connects and joins. -/
def seated (conn : ℕ) (platform : String) : List Action :=
  [.accept conn, .send conn (joins platform (9000 + conn)), .read conn .line, .register conn true]

/-- The main thread leaves its waiting loop, plans, and sends the plan to both clients until the
    broadcast has ended. -/
def broadcasts : List Action :=
  [.leave, .check, .plan, .snapshot, .sendPlan true, .sendPlan true, .sendPlan true]

/-- The run leads to a return of 0 that is not a success. -/
def betrays (tokenCount : ℤ) (guard : Hub ℚ (List (String × ℕ × ℕ)) → Action → Bool)
    (actions : List Action) : Bool :=
  (Trace.perform (guarded someConversions "ios" eightAndTwentyFour guard)
    (start ["ios", "windows"] "ios") actions).any fun result =>
      decide (result.2.main.exitCode = none) &&
        (result.2.guarded someConversions "ios" eightAndTwentyFour guard .decide).any
          (fun last => decide (last.1.main.exitCode = some 0)) &&
        (!result.2.failReason.isEmpty ||
          !(result.2.clientConns.lookup "ios").any
            (fun conn => finishesAfterBroadcast tokenCount conn result.1))

/-- A run of the guarded hub that returns 0 without a finished pipeline shows that the guard is not
    enough. -/
theorem not_sound_of_betrays {guard : Hub ℚ (List (String × ℕ × ℕ)) → Action → Bool}
    {actions : List Action} (h : betrays tokenCount guard actions = true) :
    ¬ Sound someConversions "ios" eightAndTwentyFour ["ios", "windows"] tokenCount guard := by
  intro hsound
  obtain ⟨⟨ls, s⟩, hrun, hlast⟩ := (Option.any_eq_true _ _).mp h
  simp only [Bool.and_eq_true, decide_eq_true_eq] at hlast
  obtain ⟨⟨hrunning, hdecide⟩, hwrong⟩ := hlast
  obtain ⟨⟨s', effects⟩, hs, hzero⟩ := (Option.any_eq_true _ _).mp hdecide
  have hsuccess := hsound ls s (.decide, effects) s' (Trace.of_perform hrun) hs hrunning
    (of_decide_eq_true hzero)
  obtain ⟨conn, hconn, hfinishes⟩ := hsuccess.finished
  simp [hsuccess.clean, hconn, hfinishes] at hwrong

/-- The frontend's client sends a `done` that reports nothing right after its `join`; the worker
    joins later. -/
theorem early_done :
    ¬ Sound someConversions "ios" eightAndTwentyFour ["ios", "windows"] 8 anyStep := by
  have hrun : betrays 8 anyStep
      (seated 0 "ios" ++ [.send 0 (reportsDone 0), .test 0 true, .read 0 .line, .set 0] ++
        seated 1 "windows" ++ broadcasts ++ [.stopWaiting, .collect]) = true := by
    decide +kernel
  exact not_sound_of_betrays hrun

/-- Nobody reports anything; the worker's connection breaks at the deadline, when the reasons
    have been copied, and its thread sets the event. -/
theorem unseen_failure :
    ¬ Sound someConversions "ios" eightAndTwentyFour ["ios", "windows"] 8 (lateDone 8 "ios") := by
  have hrun : betrays 8 (lateDone 8 "ios")
      (seated 0 "ios" ++ seated 1 "windows" ++ broadcasts ++
        [.stopWaiting, .test 1 true, .read 1 .raises, .collect, .record 1, .set 1]) = true := by
    decide +kernel
  exact not_sound_of_betrays hrun

/-- The frontend reports the 8 tokens after the broadcast. -/
theorem hub_success_eight_tokens : ∃ ls s l s',
    Trace (Steps someConversions "ios" eightAndTwentyFour (orderly 8 "ios"))
      (start ["ios", "windows"] "ios") ls s ∧
    Steps someConversions "ios" eightAndTwentyFour (orderly 8 "ios") s l s' ∧
    s'.main.exitCode = some 0 ∧ Success 8 "ios" ls s := by
  have hrun : ((Trace.perform
      (guarded someConversions "ios" eightAndTwentyFour (orderly 8 "ios"))
      (start ["ios", "windows"] "ios")
      (seated 0 "ios" ++ seated 1 "windows" ++ broadcasts ++
        [.send 0 (reportsDone 8), .test 0 true, .read 0 .line, .set 0, .stopWaiting,
          .collect])).any fun result => decide (result.2.main.exitCode = none) &&
      (result.2.guarded someConversions "ios" eightAndTwentyFour (orderly 8 "ios") .decide).any
        (fun last => decide (last.1.main.exitCode = some 0))) = true := by
    decide +kernel
  obtain ⟨⟨ls, s⟩, hperform, hlast⟩ := (Option.any_eq_true _ _).mp hrun
  obtain ⟨hrunning, hdecide⟩ := Bool.and_eq_true_iff.mp hlast
  obtain ⟨⟨s', effects⟩, hs, hzero⟩ := (Option.any_eq_true _ _).mp hdecide
  have htrace : Trace (Steps someConversions "ios" eightAndTwentyFour (orderly 8 "ios"))
    (start ["ios", "windows"] "ios") ls s := Trace.of_perform hperform
  have hzero : s'.main.exitCode = some 0 := of_decide_eq_true hzero
  exact ⟨ls, s, (.decide, effects), s', htrace, hs, hzero,
    hub_success someConversions "ios" eightAndTwentyFour ["ios", "windows"] 8 ls s
      (.decide, effects) s' htrace hs (of_decide_eq_true hrunning) hzero⟩

end Hub

end ShareCompute.Simulation
