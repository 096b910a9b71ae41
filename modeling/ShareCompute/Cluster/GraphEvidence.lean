import ShareCompute.Cluster.RelayLaws
import ShareCompute.Cluster.ValidateProof

namespace ShareCompute.Cluster

open ShareCompute.Library

/-!
# Graph calls as evidence

A run of the coordinator with its relay and its workers.  A worker counts its graph calls for
as long as it lives, and reports the count in heartbeats; the relay stores the last one it has
read.  `run_coordinator` records the stored counts before the run, and `validate_proof` wants
more afterwards.

What the relay stores is never ahead of the worker, but when it is recorded it may be behind:
the record of a worker begins with zeros, and a heartbeat takes its time.  Work that was done
before the run then looks like work of the run.

* `SplitRun.step` — one step of the whole: of the relay, a worker or the coordinator.
* `EvidenceInvariant` — what holds between the counts.
* `accepted_graph_calls` — what an accepted proof shows, if the stored counts were current when
  they were recorded; `stale_snapshot` shows that it is needed.
-/

/-- A worker: its native counter, the last count it has reported, and the heartbeats that the
    relay has not read yet. -/
structure Worker where
  graphCalls : ℕ
  reported : ℕ
  inFlight : List (List UInt8)

/-- How far `run_coordinator` is.  The native counters at the snapshot and at the validation
    are recorded for reference; the program does not know them. -/
inductive Coordinator
  | preparing
  /-- `before` is taken -/
  | measured (before counted : String → ℕ)
  /-- `validate_proof` has returned or raised -/
  | ended (outcome : Except String (List (String × WorkerReport))) (counted validated : String → ℕ)

/-- The coordinator's run as a whole: the relay, the workers by their nodes, and how far the
    coordinator has got. -/
structure SplitRun where
  relay : Relay
  workers : String → Worker
  coordinator : Coordinator

/-- What can happen in the run: steps of the relay, graphs and heartbeats of workers, and the
    script's own. -/
inductive SplitAction
  | relay (action : Action)
  /-- a worker runs `calls` graphs -/
  | compute (node : String) (calls : ℕ)
  /-- a worker sends a heartbeat -/
  | heartbeat (node : String) (line : List UInt8)
  /-- `before = {n: relay.nodes[n]['stats']['graph_calls'] for n in NODES}` -/
  | snapshot
  | validate (input : ProofInput)

namespace SplitRun

/-- The run at the start; the workers may have been running before. -/
def init (started : String → ℕ) : SplitRun where
  relay := .init
  workers := fun node => ⟨started node, 0, []⟩
  coordinator := .preparing

/-- A worker is replaced; the others are what they were. -/
def setWorker (self : SplitRun) (node : String) (worker : Worker) : SplitRun :=
  { self with workers := Function.update self.workers node worker }

/-- The stored count `relay.nodes[node]['stats']['graph_calls']`, or zero without a record. -/
def storedCalls (self : SplitRun) (node : String) : ℕ :=
  match self.relay.nodes.lookup node with
  | some record => record.stats.graphCalls
  | none => 0

/-- A line that a control connection reads is the next heartbeat of its worker; what the other
    connections read is not restricted. -/
def deliver (self : SplitRun) : Action → Option SplitRun
  | .inbound connection (.line bytes) _ =>
      match self.relay.handlers connection with
      | some ⟨_, _, _, .listening node⟩ =>
          if bytes = [] then some self
          else
            match (self.workers node).inFlight with
            | [] => none
            | line :: lines =>
                if line = bytes then
                  some (self.setWorker node { self.workers node with inFlight := lines })
                else none
      | _ => some self
  | _ => some self

section

variable (config : Config) (loads : List UInt8 → Option Json) (classes : CharClasses)
  (isLoopback : String → Option Bool)

/-- The count in a heartbeat, if it is a message that the relay accepts. -/
def heartbeatCalls (line : List UInt8) : Option ℕ :=
  match (receive loads (.line line)).bind telemetry with
  | .ok stats => some stats.graphCalls
  | .error _ => none

/-- One step of the run, with what it makes visible at the relay. -/
def step (self : SplitRun) : SplitAction → Option (SplitRun × Option Effect)
  | .relay action =>
      match self.deliver action with
      | none => none
      | some self =>
          (self.relay.step config loads action).map
            (fun (relay, effect) => ({ self with relay := relay }, effect))
  | .compute node calls =>
      let worker := self.workers node
      some (self.setWorker node { worker with graphCalls := worker.graphCalls + calls }, none)
  | .heartbeat node line =>
      match heartbeatCalls loads line with
      | none => none
      | some calls =>
          let worker := self.workers node
          -- the native counter is read when the heartbeat is made, and never decreases
          if worker.reported ≤ calls ∧ calls ≤ worker.graphCalls then
            some (self.setWorker node
              { worker with reported := calls, inFlight := worker.inFlight ++ [line] }, none)
          else none
  | .snapshot =>
      match self.coordinator with
      | .preparing =>
          -- all workers have joined, whether or not one of their heartbeats was read
          if ∀ node ∈ nodes, node ∈ self.relay.nodes then
            some ({ self with
              coordinator := .measured self.storedCalls
                (fun node => (self.workers node).graphCalls) }, none)
          else none
      | _ => none
  | .validate input =>
      match self.coordinator with
      | .measured before counted =>
          let outcome :=
            if self.relay.failure then .error "RuntimeError"
            else validateProof classes isLoopback input self.relay.nodes before
          some ({ self with
            coordinator := .ended outcome counted
              (fun node => (self.workers node).graphCalls) }, none)
      | _ => none

/-- The run as a labelled transition system. -/
def Step (s : SplitRun) (l : SplitAction × Option Effect) (s' : SplitRun) : Prop :=
  s.step config loads classes isLoopback l.1 = some (s', l.2)

end

/-! ### Counts -/

variable {config : Config} {loads : List UInt8 → Option Json} {classes : CharClasses}
  {isLoopback : String → Option Bool} {started : String → ℕ} {s s' : SplitRun}

/-- The counters of a record after a step: those of before, zeros, or those of the heartbeat
    that was read. -/
theorem stats_origin {relay relay' : Relay} {a : Action} {e : Option Effect} {node : String}
    {record' : Record} (hm : Relay.Move config loads relay a relay' e)
    (h : relay'.nodes.lookup node = some record') :
    (∃ record, relay.nodes.lookup node = some record ∧ record'.stats = record.stats) ∨
    record'.stats = .zero ∨
    ∃ c handler inbound now message, a = .inbound c inbound now ∧
      relay.handlers c = some handler ∧ handler.point = .listening node ∧
      receive loads inbound = .ok message ∧ telemetry message = .ok record'.stats := by
  cases hm with
  | @join c handler node' hello =>
    -- a record is made with the counters at zero
    by_cases hnode : node = node'
    · subst hnode
      rw [Relay.setHandler_nodes, AList.lookup_insert] at h
      obtain rfl := Option.some.inj h
      exact .inr (.inl rfl)
    · rw [Relay.setHandler_nodes, AList.lookup_insert_ne hnode] at h
      exact .inl ⟨record', h, rfl⟩
  | @report c handler node' message stats inbound now hhandler hpoint hreceive hstats =>
    -- the heartbeat is about the node of its handler
    rw [Relay.lookup_modifyRecord] at h
    split at h
    case isTrue hnode =>
      subst hnode
      obtain ⟨record, hrecord, rfl⟩ := Option.map_eq_some_iff.mp h
      exact .inr (.inr ⟨c, handler, inbound, now, message, rfl, hhandler, hpoint, hreceive, hstats⟩)
    case isFalse => exact .inl ⟨record', h, rfl⟩
  | copied =>
    rw [Relay.lookup_modifyRecord] at h
    split at h
    · obtain ⟨record, hrecord, rfl⟩ := Option.map_eq_some_iff.mp h
      exact .inl ⟨record, hrecord, rfl⟩
    · exact .inl ⟨record', h, rfl⟩
  | finish =>
    rw [Relay.finish_nodes] at h
    exact .inl ⟨record', h, rfl⟩
  | _ => exact .inl ⟨record', h, rfl⟩

/-- Every count on its way to the relay, or there, is one the worker has reached. -/
structure CountsBehind (loads : List UInt8 → Option Json) (s : SplitRun) : Prop where
  inFlight : ∀ node, ∀ line ∈ (s.workers node).inFlight, ∀ calls,
    heartbeatCalls loads line = some calls → calls ≤ (s.workers node).graphCalls
  stored : ∀ node record, s.relay.nodes.lookup node = some record →
    record.stats.graphCalls ≤ (s.workers node).graphCalls

/-- Reading a heartbeat leaves the relay and the counters alone. -/
theorem deliver_frame {action : Action} (h : s.deliver action = some s') :
    s'.relay = s.relay ∧ s'.coordinator = s.coordinator ∧
      (∀ node, (s'.workers node).graphCalls = (s.workers node).graphCalls) ∧
      ∀ node, (s'.workers node).inFlight ⊆ (s.workers node).inFlight := by
  have hsame : some s = some s' → s'.relay = s.relay ∧ s'.coordinator = s.coordinator ∧
      (∀ node, (s'.workers node).graphCalls = (s.workers node).graphCalls) ∧
      ∀ node, (s'.workers node).inFlight ⊆ (s.workers node).inFlight := by
    intro heq
    obtain rfl := Option.some.inj heq
    exact ⟨rfl, rfl, fun _ => rfl, fun _ => List.Subset.refl _⟩
  unfold deliver at h
  split at h
  case h_2 => exact hsame h
  case h_1 c bytes now =>
    split at h
    case h_2 => exact hsame h
    case h_1 node hhandler =>
      split at h
      case isTrue => exact hsame h
      case isFalse =>
        split at h
        case h_1 => simp at h
        case h_2 line lines hinFlight =>
          split at h
          case isFalse => simp at h
          case isTrue =>
            obtain rfl := Option.some.inj h
            -- the first line of the worker is taken off
            refine ⟨rfl, rfl, fun node' => ?_, fun node' => ?_⟩
            all_goals
              by_cases hnode : node' = node
              · subst hnode
                simp [setWorker, hinFlight]
              · simp [setWorker, Function.update_of_ne hnode]

/-- A heartbeat that the relay reads was in flight. -/
theorem mem_inFlight_of_deliver {c : ℕ} {inbound : Inbound} {now : ℚ} {node : String}
    {handler : Handler} {message : Dict} (h : s.deliver (.inbound c inbound now) = some s')
    (hhandler : s.relay.handlers c = some handler) (hpoint : handler.point = .listening node)
    (hreceive : receive loads inbound = .ok message) :
    ∃ line ∈ (s.workers node).inFlight, inbound = .line line := by
  obtain ⟨plain, peer, hello, point⟩ := handler
  obtain rfl : point = _ := hpoint
  cases inbound with
  | silence => simp [receive] at hreceive
  | broken => simp [receive] at hreceive
  | line bytes =>
    have hne : bytes ≠ [] := by
      rintro rfl
      simp [receive] at hreceive
    simp only [deliver, hhandler, hne, if_false] at h
    split at h
    · simp at h
    case h_2 line lines hinFlight =>
      split at h
      case isFalse => simp at h
      case isTrue heq => exact ⟨line, by simp [hinFlight], by rw [heq]⟩

/-- The count that a heartbeat carries is the one that the relay stores when it accepts it. -/
theorem heartbeatCalls_of_telemetry {line : List UInt8} {message : Dict} {stats : Stats}
    (hreceive : receive loads (.line line) = .ok message) (hstats : telemetry message = .ok stats) :
    heartbeatCalls loads line = some stats.graphCalls := by
  simp only [heartbeatCalls, hreceive, Except.bind, hstats]

/-- What one step of the run can do. -/
inductive Change (config : Config) (loads : List UInt8 → Option Json) (classes : CharClasses)
    (isLoopback : String → Option Bool) (s : SplitRun) :
    SplitAction → SplitRun → Option Effect → Prop
  | relay {action : Action} {s₁ : SplitRun} {relay : Relay} {e : Option Effect}
      (hdeliver : s.deliver action = some s₁)
      (hrelay : Relay.Step config loads s.relay (action, e) relay) :
      Change config loads classes isLoopback s (.relay action) { s₁ with relay := relay } e
  | compute {node : String} {calls : ℕ} :
      Change config loads classes isLoopback s (.compute node calls)
        (s.setWorker node
          { s.workers node with graphCalls := (s.workers node).graphCalls + calls }) none
  | heartbeat {node : String} {line : List UInt8} {calls : ℕ}
      (hcalls : heartbeatCalls loads line = some calls)
      (hhonest : calls ≤ (s.workers node).graphCalls) :
      Change config loads classes isLoopback s (.heartbeat node line)
        (s.setWorker node
          { s.workers node with
            reported := calls
            inFlight := (s.workers node).inFlight ++ [line] }) none
  | snapshot :
      Change config loads classes isLoopback s .snapshot
        { s with coordinator := .measured s.storedCalls (fun node => (s.workers node).graphCalls) }
        none
  | validate {input : ProofInput} {before counted : String → ℕ}
      (h : s.coordinator = .measured before counted) :
      Change config loads classes isLoopback s (.validate input)
        { s with
          coordinator := .ended (if s.relay.failure then .error "RuntimeError"
            else validateProof classes isLoopback input s.relay.nodes before) counted
            (fun node => (s.workers node).graphCalls) } none

/-- Every step of the run is one of the listed changes. -/
theorem change_of_step {l : SplitAction × Option Effect}
    (hs : Step config loads classes isLoopback s l s') :
    Change config loads classes isLoopback s l.1 s' l.2 := by
  obtain ⟨action, e⟩ := l
  simp only [Step, step] at hs
  cases action with
  | relay action =>
    simp only at hs
    split at hs
    case h_1 => simp at hs
    case h_2 s₁ hdeliver =>
      obtain ⟨⟨relay, effect⟩, hrelay, heq⟩ := Option.map_eq_some_iff.mp hs
      obtain ⟨rfl, rfl⟩ := Prod.mk.inj heq
      -- the frames in flight are not the relay's
      rw [(deliver_frame hdeliver).1] at hrelay
      exact .relay hdeliver hrelay
  | compute node calls =>
    obtain ⟨rfl, rfl⟩ := Prod.mk.inj (Option.some.inj hs)
    exact .compute
  | heartbeat node line =>
    simp only at hs
    split at hs
    case h_1 => simp at hs
    case h_2 calls hcalls =>
      split at hs
      case isFalse => simp at hs
      case isTrue hhonest =>
        -- a worker reports no more than it has counted
        obtain ⟨rfl, rfl⟩ := Prod.mk.inj (Option.some.inj hs)
        exact .heartbeat hcalls hhonest.2
  | snapshot =>
    simp only at hs
    split at hs
    · split at hs
      · obtain ⟨rfl, rfl⟩ := Prod.mk.inj (Option.some.inj hs)
        exact .snapshot
      · simp at hs
    · simp at hs
  | validate input =>
    simp only at hs
    split at hs
    case h_1 before counted hcoordinator =>
      obtain ⟨rfl, rfl⟩ := Prod.mk.inj (Option.some.inj hs)
      exact .validate hcoordinator
    case h_2 => simp at hs

/-- The step of the relay that a label shows. -/
def relayLabel (l : SplitAction × Option Effect) : Option Label :=
  match l.1 with
  | .relay action => some (action, l.2)
  | _ => none

/-- **Refinement.**  What the relay does in a run is an interleaving of the relay alone, so all
    that holds of the relay holds here. -/
theorem relay_run {ls : List (SplitAction × Option Effect)}
    (h : Trace (Step config loads classes isLoopback) (init started) ls s) :
    Relay.Run config loads (ls.filterMap relayLabel) s.relay := by
  refine Trace.invariant (I := fun ls s => Relay.Run config loads (ls.filterMap relayLabel) s.relay)
    .nil ?_ h
  rintro ls s ⟨action, e⟩ s' - ih hs
  rw [List.filterMap_append]
  -- only the steps of the relay move the relay, and each is a step it can take alone
  cases change_of_step hs with
  | relay hdeliver hrelay => exact .snoc ih hrelay
  | compute | heartbeat | snapshot | validate =>
    simp only [relayLabel, List.filterMap_cons, List.filterMap_nil, List.append_nil]
    exact ih

/-- The worker that was replaced is found as it was set, and the others as they were. -/
theorem setWorker_workers (s : SplitRun) (node node' : String) (worker : Worker) :
    (s.setWorker node worker).workers node' = if node' = node then worker else s.workers node' := by
  show Function.update s.workers node worker node' = _
  rw [Function.update_apply]

/-- The counter of a worker never decreases. -/
theorem graphCalls_mono {l : SplitAction × Option Effect}
    (hs : Step config loads classes isLoopback s l s') (node : String) :
    (s.workers node).graphCalls ≤ (s'.workers node).graphCalls := by
  obtain ⟨action, e⟩ := l
  cases change_of_step hs with
  | relay hdeliver hrelay => exact ((deliver_frame hdeliver).2.2.1 node).ge
  | @compute node' calls =>
    rw [setWorker_workers]
    split
    case isTrue hnode =>
      subst hnode
      exact Nat.le_add_right _ _
    case isFalse => exact Nat.le_refl _
  | heartbeat =>
    rw [setWorker_workers]
    split
    case isTrue hnode =>
      subst hnode
      exact Nat.le_refl _
    case isFalse => exact Nat.le_refl _
  | snapshot | validate => exact Nat.le_refl _

/-- **One step** keeps the counts behind the workers. -/
theorem CountsBehind.step {l : SplitAction × Option Effect} (I : CountsBehind loads s)
    (hs : Step config loads classes isLoopback s l s') : CountsBehind loads s' := by
  have hmono := graphCalls_mono hs
  have hinFlight : (∀ node, (s'.workers node).inFlight ⊆ (s.workers node).inFlight) →
      ∀ node, ∀ line ∈ (s'.workers node).inFlight, ∀ calls,
        heartbeatCalls loads line = some calls → calls ≤ (s'.workers node).graphCalls :=
    fun hsubset node line hline calls hcalls =>
      (I.inFlight node line (hsubset node hline) calls hcalls).trans (hmono node)
  have hstored : s'.relay = s.relay → ∀ node record,
      s'.relay.nodes.lookup node = some record →
      record.stats.graphCalls ≤ (s'.workers node).graphCalls := by
    intro hrelay node record hrecord
    rw [hrelay] at hrecord
    exact (I.stored node record hrecord).trans (hmono node)
  obtain ⟨action, e⟩ := l
  cases change_of_step hs with
  | relay hdeliver hrelay =>
    refine ⟨hinFlight (deliver_frame hdeliver).2.2.2, fun node record' hrecord' => ?_⟩
    refine Nat.le_trans ?_ (hmono node)
    -- the counters of a record change only when the relay reads a heartbeat
    rcases stats_origin (Relay.move_of_step hrelay) hrecord' with
      ⟨record, hrecord, hstats⟩ | hzero |
      ⟨c, handler, inbound, now, message, rfl, hhandler, hpoint, hreceive, hstats⟩
    · rw [hstats]
      exact I.stored node record hrecord
    · rw [hzero]
      exact Nat.zero_le _
    · obtain ⟨line, hline, rfl⟩ := mem_inFlight_of_deliver hdeliver hhandler hpoint hreceive
      exact I.inFlight node line hline _ (heartbeatCalls_of_telemetry hreceive hstats)
  | @compute node' calls =>
    refine ⟨hinFlight fun node => ?_, hstored rfl⟩
    rw [setWorker_workers]
    split
    case isTrue hnode =>
      subst hnode
      exact List.Subset.refl _
    case isFalse => exact List.Subset.refl _
  | @heartbeat node' line' calls' hcalls' hhonest =>
    refine ⟨fun node line hline calls hcalls => ?_, hstored rfl⟩
    refine Nat.le_trans ?_ (hmono node)
    rw [setWorker_workers] at hline
    split at hline
    case isFalse => exact I.inFlight node line hline calls hcalls
    case isTrue hnode =>
      subst hnode
      rcases List.mem_append.mp hline with hline | hline
      · exact I.inFlight node line hline calls hcalls
      · -- the new heartbeat carries what the worker has reached
        rw [List.mem_singleton] at hline
        subst hline
        obtain rfl := Option.some.inj (hcalls'.symm.trans hcalls)
        exact hhonest
  | snapshot => exact ⟨I.inFlight, I.stored⟩
  | validate => exact ⟨I.inFlight, I.stored⟩

/-! ### The law -/

/-- The last count of every worker has arrived at the relay. -/
def UpToDate (s : SplitRun) : Prop :=
  ∀ node ∈ nodes, s.storedCalls node = (s.workers node).graphCalls

/-- Whether the stored counts are current can be computed, so that guarded runs can be evaluated. -/
instance : DecidablePred UpToDate := fun s =>
  inferInstanceAs (Decidable (∀ node ∈ nodes, s.storedCalls node = (s.workers node).graphCalls))

/-- A step at which no stale count is recorded. -/
def CurrentStep (config : Config) (loads : List UInt8 → Option Json) (classes : CharClasses)
    (isLoopback : String → Option Bool) (s : SplitRun) (l : SplitAction × Option Effect)
    (s' : SplitRun) : Prop :=
  Step config loads classes isLoopback s l s' ∧ (l.1 = .snapshot → s.UpToDate)

/-- `step`, where it records no stale count. -/
def currentStep (config : Config) (loads : List UInt8 → Option Json) (classes : CharClasses)
    (isLoopback : String → Option Bool) (s : SplitRun) (action : SplitAction) :
    Option (SplitRun × Option Effect) :=
  match action with
  | .snapshot =>
      if s.UpToDate then s.step config loads classes isLoopback .snapshot else none
  | action => s.step config loads classes isLoopback action

/-- A step that the guarded function allows is a step of which the snapshot is current. -/
theorem of_currentStep {l : SplitAction × Option Effect}
    (h : s.currentStep config loads classes isLoopback l.1 = some (s', l.2)) :
    CurrentStep config loads classes isLoopback s l s' := by
  obtain ⟨action, e⟩ := l
  cases action with
  | snapshot =>
    simp only [currentStep] at h
    split at h
    case isTrue hcurrent => exact ⟨h, fun _ => hcurrent⟩
    case isFalse => simp at h
  | relay | compute | heartbeat | validate => exact ⟨h, by simp⟩

/-- What holds between the counts in a run without stale snapshots. -/
structure EvidenceInvariant (loads : List UInt8 → Option Json) (s : SplitRun) : Prop extends
    CountsBehind loads s where
  measured : ∀ before counted, s.coordinator = .measured before counted →
    ∀ node ∈ nodes, counted node = before node
  ended : ∀ reports counted validated, s.coordinator = .ended (.ok reports) counted validated →
    ∀ node ∈ nodes, counted node < validated node

/-- Before the first step the relay has stored nothing, so it is not ahead of any worker. -/
theorem EvidenceInvariant.init : EvidenceInvariant loads (init started) where
  inFlight := by simp [SplitRun.init]
  stored := by simp [SplitRun.init, Relay.init]
  measured := by simp [SplitRun.init]
  ended := by simp [SplitRun.init]

/-- Every step with current snapshots keeps the invariant. -/
theorem EvidenceInvariant.step {l : SplitAction × Option Effect} (I : EvidenceInvariant loads s)
    (hs : CurrentStep config loads classes isLoopback s l s') : EvidenceInvariant loads s' := by
  obtain ⟨hs, hcurrent⟩ := hs
  have hbehind := I.toCountsBehind.step hs
  -- only the coordinator moves the coordinator
  have hsame : s'.coordinator = s.coordinator → EvidenceInvariant loads s' := by
    intro heq
    refine { toCountsBehind := hbehind, measured := ?_, ended := ?_ }
    · rw [heq]
      exact I.measured
    · rw [heq]
      exact I.ended
  obtain ⟨action, e⟩ := l
  cases change_of_step hs with
  | relay hdeliver hrelay => exact hsame (deliver_frame hdeliver).2.1
  | compute | heartbeat => exact hsame rfl
  | snapshot =>
    refine { toCountsBehind := hbehind, measured := ?_, ended := by simp }
    intro before counted heq node hnode
    obtain ⟨rfl, rfl⟩ := Coordinator.measured.inj heq
    exact (hcurrent rfl node hnode).symm
  | @validate input before counted' h =>
    refine { toCountsBehind := hbehind, measured := by simp, ended := ?_ }
    intro reports counted validated heq node hnode
    obtain ⟨houtcome, rfl, rfl⟩ := Coordinator.ended.inj heq
    split at houtcome
    · simp at houtcome
    -- more is stored than was recorded, and no more than the worker has reached
    obtain ⟨record, hrecord, hcalls⟩ := calls_of_validateProof houtcome node hnode
    calc counted' node = before node := I.measured before counted' h node hnode
      _ < record.stats.graphCalls := hcalls
      _ ≤ (s.workers node).graphCalls := I.stored node record hrecord

/-- **Graph-call evidence.**  In every run whose stored counts were current when they were
    recorded, an accepted proof means that every worker has computed since. -/
theorem accepted_graph_calls (config : Config) (loads : List UInt8 → Option Json)
    (classes : CharClasses) (isLoopback : String → Option Bool) (started : String → ℕ)
    {ls : List (SplitAction × Option Effect)} {s : SplitRun}
    (h : Trace (CurrentStep config loads classes isLoopback) (init started) ls s)
    {reports : List (String × WorkerReport)} {counted validated : String → ℕ}
    (haccept : s.coordinator = .ended (.ok reports) counted validated) :
    ∀ node ∈ nodes, counted node < validated node :=
  (Trace.invariant (I := fun _ s => EvidenceInvariant loads s) .init
    (fun _ _ _ _ _ I hs => I.step hs) h).ended reports counted validated haccept

/-! ### A phone that outlives a run -/

/-- The pairing of the three nodes, each with its token and its budget. -/
def threeNodes : Config where
  nodes := fun node =>
    if node = "laptop" then some ⟨"t0", 768⟩
    else if node = "android" then some ⟨"t1", 2048⟩
    else if node = "iphone" then some ⟨"t2", 1536⟩
    else none
  rev := "b9999"

/-- Who sends a message of the run below. -/
def sender (i : UInt8) (kind : String) : Dict :=
  let (node, token, budget) := if i = 0 then ("laptop", "t0", 768)
    else if i = 1 then ("android", "t1", 2048) else ("iphone", "t2", 1536)
  [("kind", .str kind), ("node", .str node), ("token", .str token), ("runtime", .str "b9999"),
    ("budget_mib", .int budget), ("channel", .str node)]

/-- The messages of the run below: a worker joins, offers its channel, or reports. -/
def lineLoads (bytes : List UInt8) : Option Json :=
  match bytes with
  | [1, i] => some (.dict (sender i "control"))
  | [2, i] => some (.dict (sender i "data"))
  | [3, calls] => some (.dict [("op", .str "stats"), ("allocated_bytes", .int 1),
      ("peak_bytes", .int 1), ("graph_calls", .int calls.toNat)])
  | _ => none

/-- Character classes of ASCII texts, enough for the log below. -/
def asciiClasses : CharClasses where
  isSpace := fun c => decide (c = ' ' ∨ c = '\n')
  digit := fun c => if c.isDigit then some (c.toNat - '0'.toNat) else none
  isWord := fun c => c.isAlphanum || c == '_'

/-- The phones have computed 40 graphs each in an earlier run. -/
def outlived (node : String) : ℕ := if node = "laptop" then 0 else 40

/-- Connection `i` says hello and becomes the control connection of its node. -/
def join (i : ℕ) : List SplitAction :=
  [.relay (.connect i false "10.0.0.7"), .relay (.inbound i (.line [1, .ofNat i]) 0),
    .relay (.proceed i true), .relay (.proceed i true)]

/-- A byte in each direction goes through a channel of the node, so that its counters are
    positive. -/
def transfer (i : ℕ) (node : String) : List SplitAction :=
  [.relay (.connectLocal i node node), .relay (.proceedForward i true),
    .relay (.connect (10 + i) false "10.0.0.7"),
    .relay (.inbound (10 + i) (.line [2, .ofNat i]) 0), .relay (.proceed (10 + i) true),
    .relay (.proceedForward i true), .relay (.copied i true 8), .relay (.copied i false 8)]

/-- The node reports a number of graph calls. -/
def report (i : ℕ) (node : String) (calls : UInt8) : List SplitAction :=
  [.heartbeat node [3, calls], .relay (.inbound i (.line [3, calls]) 1)]

/-- The input of a proof for three layers, one on each device. -/
def threeLayers : ProofInput where
  baseline := ⟨some [1, 2], true⟩
  result := some [1, 2]
  log := "layer 0 assigned to device RPC0\nlayer 1 assigned to device RPC1\n" ++
    "layer 2 assigned to device RPC2\n"
  physical := false
  build := none

/-- The counters at the snapshot and at the validation, if the proof was accepted. -/
def acceptedCounts (s : SplitRun) : Option (List ℕ × List ℕ) :=
  match s.coordinator with
  | .ended (.ok _) counted validated => some (nodes.map counted, nodes.map validated)
  | _ => none

/-- Counts that can be read off an ended run belong to a proof that was accepted. -/
theorem exists_of_acceptedCounts {as bs : List ℕ} (h : s.acceptedCounts = some (as, bs)) :
    ∃ reports counted validated, s.coordinator = .ended (.ok reports) counted validated ∧
      nodes.map counted = as ∧ nodes.map validated = bs := by
  unfold acceptedCounts at h
  split at h
  case h_1 reports counted validated heq =>
    obtain ⟨rfl, rfl⟩ := Prod.mk.inj (Option.some.inj h)
    exact ⟨reports, counted, validated, heq, rfl, rfl⟩
  case h_2 => simp at h

/-- The snapshot is taken before the first heartbeat of the iPhone arrives.  Its record still
    says zero, so the 40 graphs of the earlier run count as evidence, although it computes
    nothing in this one. -/
theorem stale_snapshot :
    ¬ ∀ (ls : List (SplitAction × Option Effect)) (s : SplitRun)
      (reports : List (String × WorkerReport)) (counted validated : String → ℕ),
      Trace (Step threeNodes lineLoads asciiClasses (fun _ => none)) (init outlived) ls s →
      s.coordinator = .ended (.ok reports) counted validated →
      ∀ node ∈ nodes, counted node < validated node := by
  intro hclaim
  have hperform : (Trace.perform (step threeNodes lineLoads asciiClasses (fun _ => none))
      (init outlived)
      (join 0 ++ join 1 ++ join 2 ++ report 1 "android" 40 ++ [.snapshot] ++
        transfer 0 "laptop" ++ transfer 1 "android" ++ transfer 2 "iphone" ++
        [.compute "laptop" 5, .compute "android" 3] ++ report 0 "laptop" 5 ++
        report 1 "android" 43 ++ report 2 "iphone" 40 ++ [.validate threeLayers])).bind
      (fun result => result.2.acceptedCounts) = some ([0, 40, 40], [5, 43, 40]) := by
    decide +kernel
  obtain ⟨⟨ls, s⟩, hrun, hcounts⟩ := Option.bind_eq_some_iff.mp hperform
  obtain ⟨reports, counted, validated, haccept, hcounted, hvalidated⟩ :=
    exists_of_acceptedCounts hcounts
  have hless := hclaim ls s reports counted validated (Trace.of_perform hrun) haccept "iphone"
    (by simp [nodes])
  simp only [nodes, List.map_cons, List.map_nil, List.cons.injEq] at hcounted hvalidated
  omega

/-- With the iPhone's heartbeat read before the snapshot, and two graphs computed by it since, the
    proof is accepted for a reason. -/
theorem accepted_graph_calls_current : ∃ ls s reports counted validated,
    Trace (CurrentStep threeNodes lineLoads asciiClasses (fun _ => none)) (init outlived) ls s ∧
      s.coordinator = .ended (.ok reports) counted validated ∧
      ∀ node ∈ nodes, counted node < validated node := by
  have hperform : (Trace.perform (currentStep threeNodes lineLoads asciiClasses (fun _ => none))
      (init outlived)
      (join 0 ++ join 1 ++ join 2 ++ report 1 "android" 40 ++ report 2 "iphone" 40 ++ [.snapshot] ++
        transfer 0 "laptop" ++ transfer 1 "android" ++ transfer 2 "iphone" ++
        [.compute "laptop" 5, .compute "android" 3, .compute "iphone" 2] ++ report 0 "laptop" 5 ++
        report 1 "android" 43 ++ report 2 "iphone" 42 ++ [.validate threeLayers])).bind
      (fun result => result.2.acceptedCounts) = some ([0, 40, 40], [5, 43, 42]) := by
    decide +kernel
  obtain ⟨⟨ls, s⟩, hrun, hcounts⟩ := Option.bind_eq_some_iff.mp hperform
  obtain ⟨reports, counted, validated, haccept, -, -⟩ := exists_of_acceptedCounts hcounts
  have htrace := (Trace.of_perform hrun).mono fun _ _ _ => of_currentStep
  exact ⟨ls, s, reports, counted, validated, htrace, haccept,
    accepted_graph_calls _ _ _ _ _ htrace haccept⟩

end SplitRun

end ShareCompute.Cluster
