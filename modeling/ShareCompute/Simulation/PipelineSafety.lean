import ShareCompute.Simulation.HubSuccess
import ShareCompute.Simulation.PipelineBooks
import ShareCompute.Simulation.ShardPlans

namespace ShareCompute.Simulation

open ShareCompute.Library ShareCompute.Cluster

/-!
# The inference pipeline is safe

Whatever the order of the steps, a process receives the frames of the rank before its own, each
once and in order.  So the checks of a frame never fail, and what the frontend accepts has gone
through every rank.

* `Books.step` — every step keeps the books; one lemma for each kind of step.
* `InferRun.pipeline_safety` — no mismatch is reported, `done` is sent when every rank has
  processed every token, and a result is the composition of the ranks' computations.
-/

namespace InferRun

namespace Books

variable {run : InferRun} {ls : List PipelineLabel} {s : Pipeline}

/-! What a step of process `p` has to keep. -/

variable {l : PipelineLabel} {s' : Pipeline} {p : String} {process' : Process}
  {effects : List Happening}

/-- The books are kept when one process, its target and its stream change as they should; the other
    ranks are not concerned. -/
theorem update (h : run.Books ls s)
    (hprocesses : s'.processes = Function.update s.processes p process')
    (hseated : ∀ peer, process' = .running peer →
      ∃ r < run.plan.size, p = run.plan.platform r ∧ run.Seated r peer)
    (htargets : ∀ q address, s'.targets q = some address → ∃ r < run.plan.size,
      q = run.plan.platform r ∧ address = (run.plan.shard (run.plan.next r)).address)
    (hlinks : ∀ r < run.plan.size, run.Link (ls ++ [l]) s' r)
    (hothers : ∀ q, q ≠ p → acceptedIn q l.2 = [] ∧ sentIn q l.2 = [])
    (hstage : ∀ r < run.plan.size, run.plan.platform r = p →
      run.StageAt r (sentBy ls p ++ sentIn p l.2) (acceptedBy ls p ++ acceptedIn p l.2) process')
    (hreports : ∀ q report, .reported q report ∈ l.2 → report.isMismatch = false)
    (hdone : ∀ tokens : ℤ, .done tokens ∈ l.2 → tokens = run.tokenCount.toNat ∧
      run.tokenCount.toNat ≤ (acceptedBy ls (run.plan.platform 0)).length) :
    run.Books (ls ++ [l]) s' where
  seated q peer hrunning := by
    rw [hprocesses] at hrunning
    -- only the process `p` is another
    rcases eq_or_ne q p with rfl | hne
    · rw [Function.update_self] at hrunning
      exact hseated peer hrunning
    · rw [Function.update_of_ne hne] at hrunning
      exact h.seated q peer hrunning
  targets := htargets
  links := hlinks
  stages r hr := by
    rw [hprocesses, acceptedBy_snoc, sentBy_snoc]
    -- its own stage, and the ones of the other processes, which do nothing
    rcases eq_or_ne (run.plan.platform r) p with heq | hne
    · rw [heq, Function.update_self]
      exact hstage r hr heq
    · obtain ⟨haccepted, hsent⟩ := hothers _ hne
      rw [Function.update_of_ne hne, haccepted, hsent, List.append_nil, List.append_nil]
      exact h.stages r hr
  reports q report hmem := by
    rw [happenings_snoc] at hmem
    rcases List.mem_append.mp hmem with hbefore | hnow
    · exact h.reports q report hbefore
    · exact hreports q report hnow
  done tokens hmem := by
    rw [happenings_snoc] at hmem
    rw [acceptedBy_snoc, List.length_append]
    rcases List.mem_append.mp hmem with hbefore | hnow
    · obtain ⟨htokens, hle⟩ := h.done tokens hbefore
      exact ⟨htokens, by omega⟩
    · obtain ⟨htokens, hle⟩ := hdone tokens hnow
      exact ⟨htokens, by omega⟩

/-- A step that sends and accepts nothing. -/
theorem quiet (h : run.Books ls s)
    (hprocesses : s'.processes = Function.update s.processes p process')
    (hstreams : s'.streams = s.streams)
    (hseated : ∀ peer, process' = .running peer →
      ∃ r < run.plan.size, p = run.plan.platform r ∧ run.Seated r peer)
    (htargets : ∀ q address, s'.targets q = some address → ∃ r < run.plan.size,
      q = run.plan.platform r ∧ address = (run.plan.shard (run.plan.next r)).address)
    (hnothing : ∀ q, acceptedIn q l.2 = [] ∧ sentIn q l.2 = [])
    (hstage : ∀ r < run.plan.size, run.plan.platform r = p →
      run.StageAt r (sentBy ls p) (acceptedBy ls p) process')
    (hreports : ∀ q report, .reported q report ∈ l.2 → report.isMismatch = false)
    (hdone : ∀ tokens : ℤ, .done tokens ∈ l.2 → tokens = run.tokenCount.toNat ∧
      run.tokenCount.toNat ≤ (acceptedBy ls (run.plan.platform 0)).length) :
    run.Books (ls ++ [l]) s' := by
  refine h.update hprocesses hseated htargets (fun r hr => ?_) (fun q _ => hnothing q)
    (fun r hr heq => ?_) hreports hdone
  · obtain ⟨pending, hsent, hcarries⟩ := h.links r hr
    refine ⟨pending, ?_, hstreams ▸ hcarries⟩
    rw [sentBy_snoc, acceptedBy_snoc, (hnothing _).1, (hnothing _).2, List.append_nil,
      List.append_nil]
    exact hsent
  · rw [(hnothing p).1, (hnothing p).2, List.append_nil, List.append_nil]
    exact hstage r hr heq

/-- A process ends, and reports no mismatch. -/
theorem finish (h : run.Books ls s) {move : Move} {reports : List Report}
    (hreports : ∀ report ∈ reports, report.isMismatch = false) :
    run.Books (ls ++ [(move, reports.map (.reported p ·))]) (s.setProcess p .finished) := by
  refine h.quiet rfl rfl (fun _ heq => by cases heq) h.targets (fun q => by simp)
    (fun r hr heq => ?_) (fun q report hmem => ?_) (fun tokens hmem => ?_)
  · exact heq ▸ (h.stages r hr).finish
  · obtain ⟨report', hmem', heq⟩ := List.mem_map.mp hmem
    cases heq
    exact hreports report hmem'
  · obtain ⟨_, -, heq⟩ := List.mem_map.mp hmem
    cases heq

/-- A process that gives up with a report that is no mismatch keeps the books. -/
theorem giveUp (h : run.Books ls s) {move : Move} {report : Report}
    (hreport : report.isMismatch = false) :
    run.Books (ls ++ [(move, (s.giveUp p report).2)]) (s.giveUp p report).1 := by
  have hreports : ∀ other ∈ [report], other.isMismatch = false := by simpa using hreport
  exact h.finish hreports

/-- The process moves to another place, without a frame. -/
theorem go (h : run.Books ls s) {move : Move} {r : ℕ} {peer' : Peer}
    (hr : r < run.plan.size) (hseated : run.Seated r peer')
    (hstage : run.StageAt r (sentBy ls (run.plan.platform r))
      (acceptedBy ls (run.plan.platform r)) (.running peer')) :
    run.Books (ls ++ [(move, [])])
      (s.setProcess (run.plan.platform r) (.running peer')) := by
  refine h.quiet rfl rfl (fun other heq => ?_) h.targets (fun q => by simp)
    (fun k hk heq => ?_) (fun _ _ hmem => by cases hmem) (fun _ hmem => by cases hmem)
  · cases heq
    exact ⟨r, hr, rfl, hseated⟩
  · obtain rfl := InferPlan.platform_inj hk hr heq
    exact hstage

/-! ### Step by step -/

/-- The plan arrives at a process, which takes its seat or is gone. -/
theorem plan (h : run.Books ls s) (two : 2 ≤ run.plan.size) {move : Move}
    (hjoined : s.processes p = .joined) :
    run.Books (ls ++ [(move, (s.plan run.setup p).2)]) (s.plan run.setup p).1 := by
  -- a process that has only joined has neither sent nor accepted anything
  have hnothing : ∀ r < run.plan.size, p = run.plan.platform r →
      sentBy ls p = [] ∧ acceptedBy ls p = [] := by
    rintro r hr rfl
    exact (h.stages r hr).nothing (by rw [hjoined]; trivial)
  rw [Pipeline.plan]
  rcases run.prepare_cases p with hgone | ⟨r, hr, rfl, seat, hgranted, hready⟩
  · rw [hgone]
    have hreports : ∀ report ∈ ([] : List Report), report.isMismatch = false := by simp
    exact h.finish hreports
  · obtain ⟨hsent, haccepted⟩ := hnothing r hr rfl
    -- whichever place it starts in, nothing is done there yet
    have hstart : ∀ place, place = .accepting ∧ 0 < r ∨ place = .connecting → ∀ route,
        run.plan.Routed r route →
        run.Books (ls ++ [(move, [])]) (s.setProcess (run.plan.platform r)
          (.running ⟨seat, route, none, place⟩)) := by
      intro place hplace route hrouted
      refine h.go hr ⟨hgranted, hrouted, fun _ heq => by cases heq⟩ ?_
      rw [hsent, haccepted]
      rcases hplace with ⟨rfl, hpos⟩ | rfl
      · simp [StageAt, WorkerAt, Nat.ne_of_gt hpos]
      · exact stageAt_connecting rfl
    rw [hready]
    simp only [InferPlan.isFrontend_of_granted hgranted hr]
    -- the frontend connects first, and a worker accepts first
    by_cases hzero : r = 0
    · subst hzero
      obtain ⟨route, hroute, hrouted⟩ := InferPlan.frontendRoute_of_granted hgranted two
      have hsize : ¬ seat.shards.length < 2 := by
        rw [hgranted.shards, InferPlan.length_ordered]
        omega
      simp only [decide_true, if_true, if_neg hsize, hroute]
      exact hstart _ (.inr rfl) route hrouted
    · have hpos : 0 < r := Nat.pos_of_ne_zero hzero
      obtain ⟨route, hroute, hrouted⟩ := InferPlan.workerRoute_of_granted hgranted hr hpos
      simp only [hzero, decide_false, Bool.false_eq_true, if_false, hroute]
      exact hstart _ (.inl ⟨rfl, hpos⟩) route hrouted

/-- A process accepts a connection, which can only be that of the rank before it. -/
theorem accept (h : run.Books ls s) {move : Move} {r : ℕ} {peer : Peer} {origin : String}
    (hr : r < run.plan.size)
    (hpeer : s.processes (run.plan.platform r) = .running peer) (hseated : run.Seated r peer)
    (hs : s.accept (run.plan.platform r) peer origin = some (s', effects)) :
    run.Books (ls ++ [(move, effects)]) s' := by
  have hstage := h.stages r hr
  rw [hpeer] at hstage
  unfold Pipeline.accept at hs
  split at hs
  case isFalse => cases hs
  case isTrue hopen =>
    -- only the rank before connects to this address
    obtain ⟨k, hk, rfl, haddress⟩ := h.targets origin _ hopen.2
    rw [hseated.granted.my] at haddress
    have hnext : r = run.plan.next k :=
      InferPlan.address_inj hr (InferPlan.next_lt hk) haddress
    have hprev : run.plan.prev r = k := by rw [hnext, InferPlan.prev_next]
    have hinbound : ∀ place, run.Seated r
        { peer with inbound := some (run.plan.platform k), place := place } := by
      refine fun place => ⟨hseated.granted, hseated.routed, fun origin heq => ?_⟩
      rw [hprev]
      exact (Option.some.inj heq).symm
    split at hs
    case h_1 hplace =>
      obtain ⟨rfl, rfl⟩ := Prod.mk.inj (Option.some.inj hs)
      refine h.go hr (hinbound _) ?_
      obtain ⟨hsent, haccepted⟩ := hstage.nothing (.inl hplace)
      rw [hsent, haccepted]
      exact stageAt_connecting rfl
    case h_2 hplace =>
      obtain ⟨rfl, rfl⟩ := Prod.mk.inj (Option.some.inj hs)
      refine h.go hr (hinbound _) ?_
      simpa [StageAt, FrontendAt, WorkerAt, hplace] using hstage
    case h_3 hplace =>
      obtain ⟨rfl, rfl⟩ := Prod.mk.inj (Option.some.inj hs)
      refine h.go hr (hinbound _) ?_
      simpa [StageAt, FrontendAt, WorkerAt, hplace] using hstage
    case h_4 hplace =>
      obtain ⟨rfl, rfl⟩ := Prod.mk.inj (Option.some.inj hs)
      refine h.go hr (hinbound _) ?_
      simpa [StageAt, FrontendAt, WorkerAt, hplace] using hstage
    case h_5 => cases hs

/-- A process connects to the rank behind it, or fails to. -/
theorem connect (h : run.Books ls s) {move : Move} {r : ℕ} {peer : Peer} {ok : Bool}
    (hr : r < run.plan.size)
    (hpeer : s.processes (run.plan.platform r) = .running peer) (hseated : run.Seated r peer)
    (hs : s.connect run.setup (run.plan.platform r) peer ok = some (s', effects)) :
    run.Books (ls ++ [(move, effects)]) s' := by
  have hstage := h.stages r hr
  rw [hpeer] at hstage
  unfold Pipeline.connect at hs
  split at hs
  case h_2 => cases hs
  case h_1 hplace =>
    obtain ⟨hsent, haccepted⟩ := hstage.nothing (.inr hplace)
    split at hs
    -- the neighbour cannot be reached
    case isFalse =>
      have hgiveUp : run.Books (ls ++ [(move, (s.giveUp (run.plan.platform r) .exception).2)])
        (s.giveUp (run.plan.platform r) .exception).1 := h.giveUp rfl
      rwa [Option.some.inj hs] at hgiveUp
    case isTrue =>
      obtain ⟨rfl, rfl⟩ := Prod.mk.inj (Option.some.inj hs)
      -- the connection is the only thing that is new
      refine h.quiet rfl rfl (fun other heq => ?_) (fun q address htarget => ?_)
        (fun q => by simp) (fun k hk heq => ?_) (fun _ _ hmem => by cases hmem)
        (fun _ hmem => by cases hmem)
      · cases heq
        exact ⟨r, hr, rfl, hseated.moved _⟩
      · change Function.update s.targets _ _ q = some address at htarget
        rcases eq_or_ne q (run.plan.platform r) with rfl | hne
        · rw [Function.update_self, hseated.routed.dest] at htarget
          exact ⟨r, hr, rfl, (Option.some.inj htarget).symm⟩
        · rw [Function.update_of_ne hne] at htarget
          exact h.targets q address htarget
      · obtain rfl := InferPlan.platform_inj hk hr heq
        rw [hsent, haccepted, InferPlan.isFrontend_of_granted hseated.granted hk, StageAt]
        by_cases hzero : k = 0
        · rw [if_pos hzero]
          refine ⟨0, Nat.zero_le _, rfl, ?_⟩
          simp [FrontendAt, hzero, Setup.initialSeed, hseated.granted.actNbytes, seed, setup,
            InferPlan.setup]
        · simp [WorkerAt, hzero]

/-- The frontend goes on with the next token, or is done when it has had all results. -/
theorem compute (h : run.Books ls s) {move : Move} {r : ℕ} {peer : Peer}
    (hr : r < run.plan.size)
    (hpeer : s.processes (run.plan.platform r) = .running peer) (hseated : run.Seated r peer)
    (hs : s.compute run.setup (run.plan.platform r) peer = some (s', effects)) :
    run.Books (ls ++ [(move, effects)]) s' := by
  have hstage := h.stages r hr
  rw [hpeer] at hstage
  unfold Pipeline.compute at hs
  split at hs
  case h_2 => cases hs
  case h_1 t seedActivation hplace =>
    obtain ⟨rfl, c, hc, hsent, hat⟩ := hstage.frontend (by simp [WorkerAt, hplace])
    simp only [FrontendAt, hplace] at hat
    obtain ⟨rfl, haccepted, rfl⟩ := hat
    simp only [hseated.granted.tokenCount] at hs
    split at hs
    -- another token: its activation is made with the header of the plan
    case isTrue hlt =>
      have hlength : (run.seed c).length = 4096 := length_seed c
      have hfits := fits_of_seated hseated c hlength
      rw [if_neg hfits] at hs
      obtain ⟨rfl, rfl⟩ := Prod.mk.inj (Option.some.inj hs)
      refine h.go hr (hseated.moved _) ?_
      rw [StageAt, if_pos rfl]
      refine ⟨c, hc, hsent, rfl, haccepted, ?_, ?_, by omega⟩
      · show run.outside.makePromptActivation _ _ = _
        rw [hseated.granted.actNbytes]
        rfl
      · rw [hseated.granted.epoch, hseated.granted.my, hseated.routed.dest]
        rfl
    -- all tokens have gone round
    case isFalse hge =>
      obtain ⟨rfl, rfl⟩ := Prod.mk.inj (Option.some.inj hs)
      refine h.quiet rfl rfl (fun other heq => ?_) h.targets (fun q => by simp)
        (fun k hk heq => ?_) (fun _ _ hmem => by simp at hmem) (fun tokens hmem => ?_)
      · cases heq
        exact ⟨0, hr, rfl, hseated.moved _⟩
      · obtain rfl := InferPlan.platform_inj hk hr heq
        rw [StageAt, if_pos rfl]
        exact ⟨c, hc, hsent, trivial⟩
      · cases List.mem_singleton.mp hmem
        omega

/-- A frame is written, if it can be. -/
theorem sendActivation (h : run.Books ls s) {move : Move} {r : ℕ} {peer : Peer}
    {msg : ActivationMsg} {place : Place} (hr : r < run.plan.size) (hseated : run.Seated r peer)
    (hstage : run.StageAt r (sentBy ls (run.plan.platform r) ++ [msg])
      (acceptedBy ls (run.plan.platform r)) (.running { peer with place := place })) :
    run.Books
      (ls ++ [(move, (s.sendActivation run.setup (run.plan.platform r) peer msg place).2)])
      (s.sendActivation run.setup (run.plan.platform r) peer msg place).1 := by
  unfold Pipeline.sendActivation
  split
  case h_1 => exact h.giveUp rfl
  case h_2 bytes hbytes =>
    refine h.update rfl (fun other heq => ?_) h.targets (fun k hk => ?_) (fun q hne => ?_)
      (fun k hk heq => ?_) (fun _ _ hmem => by simp at hmem) (fun _ hmem => by simp at hmem)
    · cases heq
      exact ⟨r, hr, rfl, hseated.moved _⟩
    · obtain ⟨pending, hsent, hcarries⟩ := h.links k hk
      rw [Link, sentBy_snoc, acceptedBy_snoc, acceptedIn_sent, List.append_nil, sentIn_sent, hsent]
      -- only the link to the rank after grows
      rcases eq_or_ne k r with rfl | hne
      · refine ⟨pending ++ [msg], by simp, ?_⟩
        show run.Carries _ (Function.update s.streams _ _ _)
        rw [Function.update_self]
        exact hcarries.append hbytes
      · have hplatform : run.plan.platform r ≠ run.plan.platform k :=
          fun heq => hne (InferPlan.platform_inj hk hr heq.symm)
        refine ⟨pending, by rw [if_neg hplatform, List.append_nil], ?_⟩
        show run.Carries _ (Function.update s.streams _ _ _)
        rw [Function.update_of_ne hplatform.symm]
        exact hcarries
    · simp [hne.symm]
    · obtain rfl := InferPlan.platform_inj hk hr heq
      simpa using hstage

/-- A process sends the frame that it has made, and the stream behind it grows by that frame. -/
theorem send (h : run.Books ls s) {move : Move} {r : ℕ} {peer : Peer}
    (hr : r < run.plan.size)
    (hpeer : s.processes (run.plan.platform r) = .running peer) (hseated : run.Seated r peer)
    (hs : s.send run.setup (run.plan.platform r) peer = some (s', effects)) :
    run.Books (ls ++ [(move, effects)]) s' := by
  have hstage := h.stages r hr
  rw [hpeer] at hstage
  unfold Pipeline.send at hs
  split at hs
  case h_3 => cases hs
  case h_1 t seedActivation msg hplace =>
    -- the frontend has sent its next token
    have hwritten : run.StageAt r (sentBy ls (run.plan.platform r) ++ [msg])
        (acceptedBy ls (run.plan.platform r))
        (.running { peer with place := .awaiting t seedActivation }) := by
      obtain ⟨hzero, c, hc, hsent, hat⟩ := hstage.frontend (by simp [WorkerAt, hplace])
      simp only [FrontendAt, hplace] at hat
      obtain ⟨rfl, haccepted, rfl, rfl, hlt⟩ := hat
      rw [StageAt, if_pos hzero]
      refine ⟨c + 1, hlt, ?_, rfl, haccepted, rfl⟩
      rw [hsent, List.range_succ, List.map_append]
      rfl
    have hsend : run.Books
        (ls ++ [(move, (s.sendActivation run.setup (run.plan.platform r) peer msg
          (.awaiting t seedActivation)).2)])
        (s.sendActivation run.setup (run.plan.platform r) peer msg
          (.awaiting t seedActivation)).1 := h.sendActivation hr hseated hwritten
    rwa [Option.some.inj hs] at hsend
  case h_2 processed out hplace =>
    -- a worker has passed on what it was given
    have hwritten : run.StageAt r (sentBy ls (run.plan.platform r) ++ [out])
        (acceptedBy ls (run.plan.platform r))
        (.running { peer with place := .receiving (processed + 1) }) := by
      obtain ⟨hpos, hat⟩ := hstage.worker (by simp [FrontendAt, hplace])
      rw [StageAt, if_neg hpos]
      simpa [WorkerAt, hplace] using hat
    have hsend : run.Books
        (ls ++ [(move, (s.sendActivation run.setup (run.plan.platform r) peer out
          (.receiving (processed + 1))).2)])
        (s.sendActivation run.setup (run.plan.platform r) peer out
          (.receiving (processed + 1))).1 := h.sendActivation hr hseated hwritten
    rwa [Option.some.inj hs] at hsend

/-- What is read off the accepted connection: nothing yet, or the frame that is due. -/
theorem recv_cases (h : run.Books ls s) {r : ℕ} {budget : ℤ} (hr : r < run.plan.size)
    (hbudget : defaultActivationBytes ≤ budget) :
    run.outside.recvActivation budget (s.streams (run.plan.platform (run.plan.prev r)))
        = .incomplete ∨
      ∃ msg pending rest, run.outside.recvActivation budget
          (s.streams (run.plan.platform (run.plan.prev r))) = .message msg rest ∧
        msg = run.frame (run.plan.prev r) (acceptedBy ls (run.plan.platform r)).length ∧
        sentBy ls (run.plan.platform (run.plan.prev r))
          = acceptedBy ls (run.plan.platform r) ++ msg :: pending ∧
        run.Carries pending rest := by
  obtain ⟨pending, hsent, hcarries⟩ := h.links (run.plan.prev r) (InferPlan.prev_lt hr)
  rw [InferPlan.next_prev hr] at hsent
  cases pending with
  | nil =>
    -- nothing is under way, so the read waits
    have hstream : s.streams (run.plan.platform (run.plan.prev r)) = [] := hcarries
    rw [hstream]
    exact .inl (run.outside.recvActivation_nil budget)
  | cons msg pending =>
    obtain ⟨bytes, rest, hbytes, hstream, hrest⟩ := hcarries
    -- the next frame under way is the one that is due
    have hframe : msg
        = run.frame (run.plan.prev r) (acceptedBy ls (run.plan.platform r)).length := by
      have hsent' : sentBy ls (run.plan.platform (run.plan.prev r))
          = acceptedBy ls (run.plan.platform (run.plan.next (run.plan.prev r))) ++
            msg :: pending := by
        rw [InferPlan.next_prev hr, hsent]
      have hnext := h.next_frame (InferPlan.prev_lt hr) hsent'
      rwa [InferPlan.next_prev hr] at hnext
    have hlength : msg.payload.length = 4096 := by rw [hframe, length_frame]
    rw [defaultActivationBytes] at hbudget
    refine .inr ⟨msg, pending, rest, ?_, hframe, hsent, hrest⟩
    rw [hstream]
    exact run.outside.recvActivation_encodeActivation hbytes (by omega) (by omega) rest

/-- A frame is read and passes the checks. -/
theorem acceptFrame (h : run.Books ls s) {move : Move} {r : ℕ} {peer : Peer}
    {msg : ActivationMsg} {pending : List ActivationMsg} {rest : Bytes} {place : Place}
    (hr : r < run.plan.size) (hseated : run.Seated r peer)
    (hsent : sentBy ls (run.plan.platform (run.plan.prev r))
      = acceptedBy ls (run.plan.platform r) ++ msg :: pending)
    (hrest : run.Carries pending rest)
    (hstage : run.StageAt r (sentBy ls (run.plan.platform r))
      (acceptedBy ls (run.plan.platform r) ++ [msg]) (.running { peer with place := place })) :
    run.Books (ls ++ [(move, [.accepted (run.plan.platform r) msg])])
      ((s.setStream (run.plan.platform (run.plan.prev r)) rest).go (run.plan.platform r) peer
        place) := by
  refine h.update rfl (fun other heq => ?_) h.targets (fun k hk => ?_) (fun q hne => ?_)
    (fun k hk heq => ?_) (fun _ _ hmem => by simp at hmem) (fun _ hmem => by simp at hmem)
  · cases heq
    exact ⟨r, hr, rfl, hseated.moved _⟩
  · rw [Link, sentBy_snoc, acceptedBy_snoc, sentIn_accepted, List.append_nil, acceptedIn_accepted]
    show ∃ pending, _ ∧ run.Carries pending (Function.update s.streams _ _ _)
    -- only the link from the rank before is read
    rcases eq_or_ne k (run.plan.prev r) with rfl | hne
    · rw [InferPlan.next_prev hr, if_pos rfl, Function.update_self]
      exact ⟨pending, by rw [hsent]; simp, hrest⟩
    · have hnext : run.plan.platform r ≠ run.plan.platform (run.plan.next k) := by
        intro heq
        have hrank := InferPlan.platform_inj hr (InferPlan.next_lt hk) heq
        exact hne (by rw [hrank, InferPlan.prev_next])
      have hplatform : run.plan.platform k ≠ run.plan.platform (run.plan.prev r) :=
        fun heq => hne (InferPlan.platform_inj hk (InferPlan.prev_lt hr) heq)
      rw [if_neg hnext, List.append_nil, Function.update_of_ne hplatform]
      exact h.links k hk
  · simp [hne.symm]
  · obtain rfl := InferPlan.platform_inj hk hr heq
    simpa using hstage

/-- The header of the frame that is due is the one that is expected. -/
theorem header_frame {r : ℕ} {peer : Peer} (hr : r < run.plan.size) (hseated : run.Seated r peer)
    (t : ℕ) : (run.frame (run.plan.prev r) t).epoch = peer.seat.epoch ∧
      (run.frame (run.plan.prev r) t).rankFrom = peer.route.expectedFrom ∧
      (run.frame (run.plan.prev r) t).rankTo = peer.route.expectedTo := by
  obtain ⟨hfrom, hto⟩ := frame_ranks (InferPlan.prev_lt hr) t
  rw [InferPlan.next_prev hr] at hto
  rw [hfrom, hto, frame_epoch, hseated.granted.epoch, hseated.routed.expectedFrom,
    hseated.routed.expectedTo]
  exact ⟨rfl, rfl, rfl⟩

/-- A result passes the checks of the frontend. -/
theorem acceptResult (h : run.Books ls s) {move : Move} {r t : ℕ} {peer : Peer}
    {seedActivation : Bytes} {msg : ActivationMsg} {pending : List ActivationMsg} {rest : Bytes}
    (hr : r < run.plan.size) (hpeer : s.processes (run.plan.platform r) = .running peer)
    (hseated : run.Seated r peer) (hplace : peer.place = .awaiting t seedActivation)
    (hframe : msg = run.frame (run.plan.prev r) (acceptedBy ls (run.plan.platform r)).length)
    (hsent : sentBy ls (run.plan.platform (run.plan.prev r))
      = acceptedBy ls (run.plan.platform r) ++ msg :: pending)
    (hrest : run.Carries pending rest)
    (hs : (s.setStream (run.plan.platform (run.plan.prev r)) rest).acceptResult
      (run.plan.platform r) peer t seedActivation msg = (s', effects)) :
    run.Books (ls ++ [(move, effects)]) s' := by
  have hstage := h.stages r hr
  rw [hpeer] at hstage
  obtain ⟨hzero, c, hc, hsource, hat⟩ := hstage.frontend (by simp [WorkerAt, hplace])
  simp only [FrontendAt, hplace] at hat
  obtain ⟨hsentCount, haccepted, hseed⟩ := hat
  obtain ⟨hepoch, hfrom, hto⟩ := header_frame hr hseated t
  rw [haccepted] at hframe
  have htoken : msg.tokenId = t := by rw [hframe, frame_tokenId]
  rw [← hframe] at hepoch hfrom hto
  rw [Pipeline.acceptResult, if_neg (not_not.mpr hepoch), if_neg (not_not.mpr htoken),
    if_neg (by simp [hfrom, hto])] at hs
  obtain ⟨rfl, rfl⟩ := Prod.mk.inj hs
  refine h.acceptFrame hr hseated hsent hrest ?_
  rw [StageAt, if_pos hzero]
  refine ⟨c, hc, hsource, hsentCount, ?_, hseed⟩
  rw [List.length_append, haccepted]
  rfl

/-- An activation passes the checks of a worker. -/
theorem acceptActivation (h : run.Books ls s) {move : Move} {r processed : ℕ} {peer : Peer}
    {msg : ActivationMsg} {pending : List ActivationMsg} {rest : Bytes}
    (hr : r < run.plan.size) (hpeer : s.processes (run.plan.platform r) = .running peer)
    (hseated : run.Seated r peer) (hplace : peer.place = .receiving processed)
    (hframe : msg = run.frame (run.plan.prev r) (acceptedBy ls (run.plan.platform r)).length)
    (hsent : sentBy ls (run.plan.platform (run.plan.prev r))
      = acceptedBy ls (run.plan.platform r) ++ msg :: pending)
    (hrest : run.Carries pending rest)
    (hs : (s.setStream (run.plan.platform (run.plan.prev r)) rest).acceptActivation run.setup
      (run.plan.platform r) peer processed msg = (s', effects)) :
    run.Books (ls ++ [(move, effects)]) s' := by
  have hstage := h.stages r hr
  rw [hpeer] at hstage
  obtain ⟨hpos, hat⟩ := hstage.worker (by simp [FrontendAt, hplace])
  simp only [WorkerAt, hplace] at hat
  have hlength : msg.payload.length = 4096 := by rw [hframe, length_frame]
  have hfits := fits_of_seated hseated msg.tokenId hlength
  obtain ⟨hepoch, hfrom, hto⟩ :=
    header_frame hr hseated (acceptedBy ls (run.plan.platform r)).length
  rw [← hframe] at hepoch hfrom hto
  simp only [Pipeline.acceptActivation] at hs
  rw [if_neg (not_not.mpr hepoch), if_neg (by simp [hfrom, hto]), if_neg hfits] at hs
  obtain ⟨rfl, rfl⟩ := Prod.mk.inj hs
  refine h.acceptFrame hr hseated hsent hrest ?_
  rw [StageAt, if_neg hpos]
  show _ ++ [_] = List.map _ (_ ++ [msg])
  rw [List.map_append, ← hat, hseated.granted.epoch, hseated.granted.my, hseated.routed.dest]
  rfl

/-- A process receives the frame that is due, and it passes every check. -/
theorem receive (h : run.Books ls s) {move : Move} {r : ℕ} {peer : Peer} (hr : r < run.plan.size)
    (hpeer : s.processes (run.plan.platform r) = .running peer) (hseated : run.Seated r peer)
    (hs : s.receive run.setup (run.plan.platform r) peer = some (s', effects)) :
    run.Books (ls ++ [(move, effects)]) s' := by
  unfold Pipeline.receive at hs
  split at hs
  case h_1 => cases hs
  case h_2 origin hinbound =>
    obtain rfl := hseated.inbound origin hinbound
    rcases h.recv_cases hr hseated.granted.bufBudget with
      hrecv | ⟨msg, pending, rest, hrecv, hframe, hsent, hrest⟩
    · rw [show run.setup.outside = run.outside from rfl, hrecv] at hs
      cases hs
    · rw [show run.setup.outside = run.outside from rfl, hrecv] at hs
      cases hplace : peer.place with
      | awaiting t seedActivation =>
        rw [hplace] at hs
        exact h.acceptResult hr hpeer hseated hplace hframe hsent hrest (Option.some.inj hs)
      | receiving processed =>
        rw [hplace] at hs
        by_cases hmore : (processed : ℤ) < peer.seat.tokenCount
        · simp only [if_pos hmore] at hs
          exact h.acceptActivation hr hpeer hseated hplace hframe hsent hrest
            (Option.some.inj hs)
        · simp [if_neg hmore] at hs
      | _ => simp [hplace] at hs

/-- A worker that has processed all tokens leaves its loop. -/
theorem leave (h : run.Books ls s) {move : Move} {r : ℕ} {peer : Peer}
    (hr : r < run.plan.size)
    (hpeer : s.processes (run.plan.platform r) = .running peer) (hseated : run.Seated r peer)
    (hs : s.leave (run.plan.platform r) peer = some (s', effects)) :
    run.Books (ls ++ [(move, effects)]) s' := by
  have hstage := h.stages r hr
  rw [hpeer] at hstage
  unfold Pipeline.leave at hs
  split at hs
  case h_2 => cases hs
  case h_1 processed hplace =>
    obtain ⟨rfl, rfl⟩ := Prod.mk.inj (Option.some.inj hs)
    refine h.go hr (hseated.moved _) ?_
    obtain ⟨hpos, hat⟩ := hstage.worker (by simp [FrontendAt, hplace])
    simp only [WorkerAt, hplace] at hat
    rw [StageAt, if_neg hpos]
    show sentBy ls (run.plan.platform r) <+: _
    rw [hat]

/-- What the environment makes a process report is no mismatch. -/
theorem not_mismatch_of_failure {peer : Peer} {failure : Failure} {reports : List Report}
    (h : Pipeline.failureReports peer failure = some reports) :
    ∀ report ∈ reports, report.isMismatch = false := by
  unfold Pipeline.failureReports at h
  intro report hmem
  cases failure <;> dsimp only at h <;> split at h <;> cases h <;> simp at hmem <;>
    subst hmem <;> first | rfl | (split_ifs <;> rfl)

/-- Whatever the environment does to a process, what it then reports is no mismatch. -/
theorem fail (h : run.Books ls s) {move : Move} {peer : Peer} {failure : Failure}
    (hs : s.fail p peer failure = some (s', effects)) :
    run.Books (ls ++ [(move, effects)]) s' := by
  obtain ⟨reports, hreports, heq⟩ := Option.map_eq_some_iff.mp hs
  obtain ⟨rfl, rfl⟩ := Prod.mk.inj heq
  exact h.finish (not_mismatch_of_failure hreports)

/-- The process that acts is one of the plan. -/
theorem act (h : run.Books ls s) {body : Peer → Option (Pipeline × List Happening)}
    (hs : s.act p body = some (s', effects)) :
    ∃ r < run.plan.size, p = run.plan.platform r ∧ ∃ peer,
      s.processes (run.plan.platform r) = .running peer ∧ run.Seated r peer ∧
      body peer = some (s', effects) := by
  unfold Pipeline.act at hs
  split at hs
  case h_2 => cases hs
  case h_1 peer hpeer =>
    obtain ⟨r, hr, rfl, hseated⟩ := h.seated p peer hpeer
    exact ⟨r, hr, rfl, peer, hpeer, hseated, hs⟩

/-- Every step keeps the books, by the cases of who does what. -/
theorem step (h : run.Books ls s) (two : 2 ≤ run.plan.size) (hs : run.Steps s l s') :
    run.Books (ls ++ [l]) s' := by
  obtain ⟨move, effects⟩ := l
  unfold Steps Pipeline.step at hs
  cases move with
  | plan p =>
    dsimp only at hs
    split at hs
    case h_1 hjoined =>
      have hplan : run.Books (ls ++ [(.plan p, (s.plan run.setup p).2)]) (s.plan run.setup p).1 :=
        h.plan two hjoined
      rwa [Option.some.inj hs] at hplan
    case h_2 => cases hs
  | accept p origin =>
    obtain ⟨r, hr, rfl, peer, hpeer, hseated, hbody⟩ := h.act hs
    exact h.accept hr hpeer hseated hbody
  | connect p ok =>
    obtain ⟨r, hr, rfl, peer, hpeer, hseated, hbody⟩ := h.act hs
    exact h.connect hr hpeer hseated hbody
  | compute p =>
    obtain ⟨r, hr, rfl, peer, hpeer, hseated, hbody⟩ := h.act hs
    exact h.compute hr hpeer hseated hbody
  | send p =>
    obtain ⟨r, hr, rfl, peer, hpeer, hseated, hbody⟩ := h.act hs
    exact h.send hr hpeer hseated hbody
  | receive p =>
    obtain ⟨r, hr, rfl, peer, hpeer, hseated, hbody⟩ := h.act hs
    exact h.receive hr hpeer hseated hbody
  | leave p =>
    obtain ⟨r, hr, rfl, peer, hpeer, hseated, hbody⟩ := h.act hs
    exact h.leave hr hpeer hseated hbody
  | fail p failure =>
    obtain ⟨r, hr, rfl, peer, hpeer, hseated, hbody⟩ := h.act hs
    exact h.fail hbody

/-- Before the first step nothing was sent, and no process runs. -/
theorem start (run : InferRun) : run.Books [] Pipeline.start where
  seated p peer hrunning := by cases hrunning
  targets p address htarget := by cases htarget
  links r _ := ⟨[], rfl, rfl⟩
  stages r _ := by
    rw [StageAt]
    split
    case isTrue => exact ⟨0, Nat.zero_le _, rfl, rfl, rfl⟩
    case isFalse => exact ⟨rfl, rfl⟩
  reports p report hmem := by cases hmem
  done tokens hmem := by cases hmem

/-- Every run keeps the books, by induction over its steps. -/
theorem trace {ls : List PipelineLabel} {s : Pipeline} (two : 2 ≤ run.plan.size)
    (h : Trace run.Steps Pipeline.start ls s) : run.Books ls s :=
  Trace.invariant (I := run.Books) (start run)
    (fun _ _ _ _ _ hbooks hs => hbooks.step two hs) h

/-- When the frontend is done, nobody is behind. -/
theorem processed (h : run.Books ls s) (hn : 0 < run.plan.size) {tokens : ℤ}
    (hdone : .done tokens ∈ happenings ls) {r : ℕ} (hr : r < run.plan.size) :
    processedBy ls (run.plan.platform r) = List.range run.tokenCount.toNat := by
  -- it has accepted as much as it has sent, so the ring is empty
  obtain ⟨-, hall⟩ := h.done tokens hdone
  obtain ⟨c, hc, hsource, -⟩ := h.sent_source hn
  have hle := (h.conserved hn).length_accepted_le hn
  simp only [hsource, List.length_map, List.length_range] at hle
  have hcount : c = run.tokenCount.toNat := by omega
  have hcomplete := (h.conserved hn).complete
    (by simp only [hsource, List.length_map, List.length_range]; omega) hr
  simp only [hsource, List.map_map] at hcomplete
  have hid : ActivationMsg.tokenId ∘ StageRing.through run.stage r ∘ run.source = id := by
    funext t
    exact frame_tokenId r t
  rw [processedBy, hcomplete, List.map_map, hid, List.map_id, hcount]

/-- A result is a frame of the last rank. -/
theorem result_frame (h : run.Books ls s) (hn : 0 < run.plan.size) {msg : ActivationMsg}
    (hmem : msg ∈ acceptedBy ls (run.plan.platform 0)) :
    msg = run.frame (run.plan.size - 1) msg.tokenId := by
  obtain ⟨c, -, hsource, -⟩ := h.sent_source hn
  have haccepted := (h.conserved hn).accepted_through hn
  simp only [hsource, List.map_map] at haccepted
  obtain ⟨t, -, rfl⟩ := List.mem_map.mp (haccepted.subset hmem)
  exact congrArg (run.frame (run.plan.size - 1)) (frame_tokenId _ t).symm

end Books

/-- A frame was accepted in a run exactly if it is among those that its platform has accepted. -/
theorem mem_acceptedBy {ls : List PipelineLabel} {platform : String} {msg : ActivationMsg} :
    .accepted platform msg ∈ happenings ls ↔ msg ∈ acceptedBy ls platform := by
  rw [acceptedBy, acceptedIn, List.mem_filterMap]
  constructor
  · exact fun hmem => ⟨_, hmem, if_pos rfl⟩
  · rintro ⟨happening, hmem, heq⟩
    cases happening <;> simp at heq
    obtain ⟨rfl, rfl⟩ := heq
    exact hmem

/-- **Safety of the inference pipeline.**  No mismatch is ever reported, and what is done was done
    by all ranks for every token. -/
theorem pipeline_safety (run : InferRun) (two : 2 ≤ run.plan.size) {ls : List PipelineLabel}
    {s : Pipeline} (h : Trace run.Steps Pipeline.start ls s) :
    (∀ platform report, .reported platform report ∈ happenings ls →
      report.isMismatch = false) ∧
    (∀ tokens : ℤ, .done tokens ∈ happenings ls → tokens = run.tokenCount.toNat ∧
      ∀ shard ∈ run.plan.shards,
        processedBy ls shard.platform = List.range run.tokenCount.toNat) ∧
    ∀ frontend ∈ run.plan.shards, frontend.rank = 0 →
      ∀ result, .accepted frontend.platform result ∈ happenings ls →
        result.payload = (sortByRank run.plan.shards).foldl
          (fun payload shard => run.outside.fakeCompute payload shard.layerCount result.tokenId
            shard.rank) (run.seed result.tokenId) := by
  have hbooks := Books.trace two h
  have hn : 0 < run.plan.size := by omega
  refine ⟨hbooks.reports, fun tokens hdone => ⟨(hbooks.done tokens hdone).1, ?_⟩, ?_⟩
  · intro shard hshard
    obtain ⟨r, hr, rfl⟩ := InferPlan.exists_shard hshard
    exact hbooks.processed hn hdone hr
  · intro frontend hfrontend hrank result hresult
    obtain ⟨r, hr, rfl⟩ := InferPlan.exists_shard hfrontend
    rw [InferPlan.rank_shard hr] at hrank
    obtain rfl : r = 0 := by omega
    have hframe := hbooks.result_frame hn (mem_acceptedBy.mp hresult)
    have hlast : run.plan.size - 1 < run.plan.size := by omega
    have hpayload := frame_payload hlast result.tokenId
    have htake : run.plan.ordered.take (run.plan.size - 1 + 1) = run.plan.ordered :=
      List.take_of_length_le (by rw [InferPlan.length_ordered]; omega)
    rw [← hframe, htake] at hpayload
    exact hpayload

/-! ### A run of three seats -/

/-- Enough of Python for a plan; the digest and the computation are arbitrary. -/
def someOutside : Outside where
  str := Hub.someConversions.str
  float
    | .float q => some q
    | _ => none
  int := Hub.someConversions.int
  str_str := Hub.someConversions.str_str
  int_int _ := rfl
  float_float _ := rfl
  intValueError
    | .str _ => true
    | _ => false
  sha256 _ := List.replicate 32 7
  length_sha256 _ := List.length_replicate
  fakeCompute payload layers tokenId rank :=
    payload.map (· + UInt8.ofNat (layers.toNat + tokenId + rank.toNat))
  length_fakeCompute _ _ _ _ := List.length_map _

/-- Three peers of the hub, in the order in which they joined. -/
def threePeers : List Planners.Peer :=
  [⟨"windows", "sim-windows", 16, "worker", "127.0.0.1", 9002⟩,
    ⟨"ios", "sim-ios", 6, "frontend", "127.0.0.1", 9000⟩,
    ⟨"macos", "sim-macos", 8, "worker", "127.0.0.1", 9001⟩]

/-- Their shards of 48 layers and 24 GB. -/
def threeShards : List InferShard :=
  [⟨0, "ios", "sim-ios", "frontend", 0, 9, some 5, "127.0.0.1", 9000⟩,
    ⟨1, "macos", "sim-macos", "worker", 9, 22, some 7, "127.0.0.1", 9001⟩,
    ⟨2, "windows", "sim-windows", "worker", 22, 48, some (27 / 2), "127.0.0.1", 9002⟩]

/-- The planner returns these shards for the three peers. -/
theorem returns_threeShards :
    Planners.Returns Planners.planInferShards threePeers 48 24 (1 / 2) (.ok threeShards) :=
  Planners.returns_of_run (by decide) (by decide) (by decide +kernel)

/-- The ring of what `plan_infer_shards` returns for the three peers. -/
def threeSeats : InferPlan :=
  Planners.ringOf threeShards (by decide) (by decide) (by decide) (by decide) returns_threeShards

/-- A run of one token over the three seats. -/
def oneToken : InferRun := ⟨threeSeats, someOutside, "e1", 1, "hello"⟩

/-- The plan arrives everywhere, the connections are made, and the token goes round once. -/
def oneTokenMoves : List Move :=
  [.plan "ios", .plan "macos", .plan "windows", .connect "ios" true, .accept "macos" "ios",
    .connect "macos" true, .accept "windows" "macos", .connect "windows" true,
    .accept "ios" "windows", .compute "ios", .send "ios", .receive "macos", .send "macos",
    .receive "windows", .send "windows", .receive "ios", .compute "ios"]

/-- The hub plans for the three peers, the token goes round, and the frontend is done. -/
theorem pipeline_safety_one_token :
    Planners.Returns Planners.planInferShards threePeers 48 24 (1 / 2) (.ok threeSeats.shards) ∧
    ∃ ls s, Trace oneToken.Steps Pipeline.start ls s ∧ .done 1 ∈ happenings ls ∧
      ∀ shard ∈ threeSeats.shards, processedBy ls shard.platform = [0] := by
  refine ⟨returns_threeShards, ?_⟩
  have hperform : (Trace.perform (fun s move => s.step oneToken.setup move) Pipeline.start
      oneTokenMoves).any (fun result => (happenings result.1).any
        (fun | .done tokens => decide (tokens = 1) | _ => false)) = true := by
    decide +kernel
  obtain ⟨⟨ls, s⟩, hrun, hdone⟩ := (Option.any_eq_true _ _).mp hperform
  obtain ⟨happening, hmem, hone⟩ := List.any_eq_true.mp hdone
  have htrace : Trace oneToken.Steps Pipeline.start ls s := Trace.of_perform hrun
  cases happening with
  | done tokens =>
    obtain rfl : tokens = 1 := of_decide_eq_true hone
    exact ⟨ls, s, htrace, hmem, ((pipeline_safety oneToken (by decide) htrace).2.1 1 hmem).2⟩
  | _ => cases hone

end InferRun

end ShareCompute.Simulation
