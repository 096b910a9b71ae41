import ShareCompute.Library.StageRing
import ShareCompute.Simulation.InferencePlan

namespace ShareCompute.Simulation

open ShareCompute.Library ShareCompute.Cluster

/-!
# The books of the inference pipeline

What each rank has accepted and sent is read off the steps of a run, and compared with what is
in the streams and with the place where each process is.

* `InferRun.frame` — the frame that a rank sends for a token.
* `InferRun.Books` — what is true of all ranks between two steps: a frame that was sent was
  accepted by the next rank or is in the stream, and a rank sends what it makes of what it has
  accepted.
* `Books.conserved`, `Books.next_frame` — so the frame that comes next is that of the token
  that is due.
-/

/-- A plan, and what is run over it. -/
structure InferRun where
  plan : InferPlan
  outside : Outside
  epoch : String
  tokenCount : ℤ
  prompt : String

/-- A step with what it makes visible. -/
abbrev PipelineLabel := Move × List Happening

/-! ### What was accepted and sent -/

/-- The frames that a platform accepted, among the things that happened. -/
def acceptedIn (platform : String) (happenings : List Happening) : List ActivationMsg :=
  happenings.filterMap fun
    | .accepted p msg => if p = platform then some msg else none
    | _ => none

/-- The frames that a platform sent, among the things that happened. -/
def sentIn (platform : String) (happenings : List Happening) : List ActivationMsg :=
  happenings.filterMap fun
    | .sent p msg => if p = platform then some msg else none
    | _ => none

/-- Everything that became visible along a run, in its order. -/
def happenings (ls : List PipelineLabel) : List Happening := ls.flatMap Prod.snd

/-- The frames that a platform has accepted in a run, in the order in which it did. -/
def acceptedBy (ls : List PipelineLabel) (platform : String) : List ActivationMsg :=
  acceptedIn platform (happenings ls)

/-- The frames that a platform has sent in a run, in the order in which it did. -/
def sentBy (ls : List PipelineLabel) (platform : String) : List ActivationMsg :=
  sentIn platform (happenings ls)

/-- The tokens that a process has computed and sent on. -/
def processedBy (ls : List PipelineLabel) (platform : String) : List ℕ :=
  (sentBy ls platform).map ActivationMsg.tokenId

/-- One step more adds what it makes visible at the end. -/
theorem happenings_snoc (ls : List PipelineLabel) (l : PipelineLabel) :
    happenings (ls ++ [l]) = happenings ls ++ l.2 := by simp [happenings]

/-- One step more adds the frames that it accepts at the end. -/
theorem acceptedBy_snoc (ls : List PipelineLabel) (l : PipelineLabel) (platform : String) :
    acceptedBy (ls ++ [l]) platform = acceptedBy ls platform ++ acceptedIn platform l.2 := by
  rw [acceptedBy, happenings_snoc, acceptedIn, List.filterMap_append]
  rfl

/-- One step more adds the frames that it sends at the end. -/
theorem sentBy_snoc (ls : List PipelineLabel) (l : PipelineLabel) (platform : String) :
    sentBy (ls ++ [l]) platform = sentBy ls platform ++ sentIn platform l.2 := by
  rw [sentBy, happenings_snoc, sentIn, List.filterMap_append]
  rfl

/-- Where nothing happened nothing was accepted, and the induction over events begins. -/
@[simp] theorem acceptedIn_nil (platform : String) : acceptedIn platform [] = [] := rfl

/-- An accepted frame counts for the platform that accepted it, and for no other. -/
@[simp] theorem acceptedIn_accepted (platform p : String) (msg : ActivationMsg) :
    acceptedIn platform [.accepted p msg] = if p = platform then [msg] else [] := by
  by_cases h : p = platform <;> simp [acceptedIn, h]

/-- To send a frame is not to accept one. -/
@[simp] theorem acceptedIn_sent (platform p : String) (msg : ActivationMsg) :
    acceptedIn platform [.sent p msg] = [] := rfl

/-- Reports to the hub are no frames. -/
@[simp] theorem acceptedIn_reported (platform p : String) (reports : List Report) :
    acceptedIn platform (reports.map (.reported p ·)) = [] := by
  simp [acceptedIn]

/-- The message that the frontend is done is no frame. -/
@[simp] theorem acceptedIn_done (platform : String) (tokens : ℤ) :
    acceptedIn platform [.done tokens] = [] := rfl

/-- Where nothing happened nothing was sent, and the induction over events begins. -/
@[simp] theorem sentIn_nil (platform : String) : sentIn platform [] = [] := rfl

/-- A sent frame counts for the platform that sent it, and for no other. -/
@[simp] theorem sentIn_sent (platform p : String) (msg : ActivationMsg) :
    sentIn platform [.sent p msg] = if p = platform then [msg] else [] := by
  by_cases h : p = platform <;> simp [sentIn, h]

/-- To accept a frame is not to send one. -/
@[simp] theorem sentIn_accepted (platform p : String) (msg : ActivationMsg) :
    sentIn platform [.accepted p msg] = [] := rfl

/-- Reports to the hub go over the control connection and not over the data plane. -/
@[simp] theorem sentIn_reported (platform p : String) (reports : List Report) :
    sentIn platform (reports.map (.reported p ·)) = [] := by
  simp [sentIn]

/-- The message that the frontend is done goes over the control connection. -/
@[simp] theorem sentIn_done (platform : String) (tokens : ℤ) :
    sentIn platform [.done tokens] = [] := rfl

namespace InferRun

variable (run : InferRun)

/-- What every process of the run is given: the plan of the hub, its epoch and the prompt. -/
def setup : Setup := run.plan.setup run.outside run.epoch run.tokenCount run.prompt

/-- A step of the pipeline with what it makes visible, as a relation between its states. -/
def Steps (s : Pipeline) (l : PipelineLabel) (s' : Pipeline) : Prop :=
  s.step run.setup l.1 = some (s', l.2)

/-! ### The frames of a token -/

/-- The frontend's seed activation for a token. -/
def seed : ℕ → Bytes
  | 0 => run.outside.makePromptActivation run.prompt defaultActivationBytes
  | t + 1 => run.outside.makePromptActivation (run.prompt ++ "|tok" ++ toString t)
      defaultActivationBytes

/-- What rank `r` computes of a payload, for the token `t`. -/
def compute (r t : ℕ) (payload : Bytes) : Bytes :=
  run.outside.fakeCompute payload (run.plan.shard r).layerCount t (run.plan.shard r).rank

/-- The frame that the frontend sends for token `t`. -/
def source (t : ℕ) : ActivationMsg :=
  ⟨run.epoch, t, (run.plan.shard 0).rank, (run.plan.shard (run.plan.next 0)).rank,
    run.compute 0 t (run.seed t)⟩

/-- What rank `r` makes of a frame. -/
def stage (r : ℕ) (msg : ActivationMsg) : ActivationMsg :=
  ⟨run.epoch, msg.tokenId, (run.plan.shard r).rank, (run.plan.shard (run.plan.next r)).rank,
    run.compute r msg.tokenId msg.payload⟩

/-- The frame that rank `r` sends for token `t`. -/
def frame (r t : ℕ) : ActivationMsg := StageRing.through run.stage r (run.source t)

variable {run}

/-- The computation of a stage keeps the size of an activation. -/
@[simp] theorem length_compute (r t : ℕ) (payload : Bytes) :
    (run.compute r t payload).length = payload.length := run.outside.length_fakeCompute _ _ _ _

/-- Every seed is as large as the activations that the plan asks for. -/
@[simp] theorem length_seed (t : ℕ) : (run.seed t).length = 4096 := by
  cases t <;> exact run.outside.length_makePromptActivation _ _

/-- A frame carries the number of its token, whatever rank sends it. -/
@[simp] theorem frame_tokenId (r t : ℕ) : (run.frame r t).tokenId = t := by
  induction r with
  | zero => rfl
  | succ r ih => exact ih

/-- A frame carries the epoch of the plan. -/
@[simp] theorem frame_epoch (r t : ℕ) : (run.frame r t).epoch = run.epoch := by
  cases r <;> rfl

/-- The payload of every frame has the default size, which fits the budget of every peer. -/
@[simp] theorem length_frame (r t : ℕ) : (run.frame r t).payload.length = 4096 := by
  induction r with
  | zero => exact (length_compute 0 t _).trans (length_seed t)
  | succ r ih => exact (length_compute (r + 1) _ _).trans ih

/-- The header of a frame names the rank that sends it and the next one of the ring. -/
theorem frame_ranks {r : ℕ} (hr : r < run.plan.size) (t : ℕ) :
    (run.frame r t).rankFrom = r ∧ (run.frame r t).rankTo = run.plan.next r := by
  have hfrom := InferPlan.rank_shard hr
  have hto := InferPlan.rank_shard (InferPlan.next_lt hr)
  cases r <;> exact ⟨hfrom, hto⟩

/-- The payload has gone through the ranks, in their order. -/
theorem frame_payload {r : ℕ} (hr : r < run.plan.size) (t : ℕ) :
    (run.frame r t).payload = (run.plan.ordered.take (r + 1)).foldl
      (fun payload shard => run.outside.fakeCompute payload shard.layerCount t shard.rank)
      (run.seed t) := by
  induction r with
  | zero =>
    rw [List.take_add_one, InferPlan.getElem_ordered hr]
    rfl
  | succ r ih =>
    rw [List.take_add_one, InferPlan.getElem_ordered hr, List.foldl_append, ← ih (by omega)]
    show run.compute (r + 1) (run.frame r t).tokenId (run.frame r t).payload = _
    rw [frame_tokenId]
    rfl

/-- A process that gets the plan is gone, or is ready at the rank that its platform has in the
    plan. -/
theorem prepare_cases (run : InferRun) (p : String) :
    run.setup.prepare p = .gone ∨ ∃ r < run.plan.size, p = run.plan.platform r ∧ ∃ seat,
      run.plan.Granted run.epoch run.tokenCount r seat ∧ run.setup.prepare p = .ready seat :=
  InferPlan.prepare_cases p

/-! ### The books -/

variable (run)

/-- The frontend has sent the frames of `sent` tokens and has accepted `accepted` results. -/
def FrontendAt (sent accepted : ℕ) : Process → Prop
  | .joined => sent = 0 ∧ accepted = 0
  | .running peer =>
      match peer.place with
      | .connecting => sent = 0 ∧ accepted = 0
      | .looping t seed => sent = t ∧ accepted = t ∧ seed = run.seed t
      | .sending t seed msg => sent = t ∧ accepted = t ∧ seed = run.seed (t + 1) ∧
          msg = run.source t ∧ t < run.tokenCount.toNat
      | .awaiting t seed => sent = t + 1 ∧ accepted = t ∧ seed = run.seed (t + 1)
      | .waiting => True
      | _ => False
  | .finished => True

/-- The worker of rank `r` has computed what it has accepted, in that order. -/
def WorkerAt (r : ℕ) (sent accepted : List ActivationMsg) : Process → Prop
  | .joined => sent = [] ∧ accepted = []
  | .running peer =>
      match peer.place with
      | .accepting | .connecting => sent = [] ∧ accepted = []
      | .receiving _ => sent = accepted.map (run.stage r)
      | .forwarding _ out => sent ++ [out] = accepted.map (run.stage r)
      | .waiting => sent <+: accepted.map (run.stage r)
      | _ => False
  | .finished => sent <+: accepted.map (run.stage r)

/-- What a process of rank `r` has sent and accepted agrees with the place where it is. -/
def StageAt (r : ℕ) (sent accepted : List ActivationMsg) (process : Process) : Prop :=
  if r = 0 then ∃ c ≤ run.tokenCount.toNat, sent = (List.range c).map run.source ∧
    run.FrontendAt c accepted.length process
  else run.WorkerAt r sent accepted process

/-- The running process of rank `r` has its seat, its route, and no other predecessor. -/
structure Seated (r : ℕ) (peer : Peer) : Prop where
  granted : run.plan.Granted run.epoch run.tokenCount r peer.seat
  routed : run.plan.Routed r peer.route
  inbound : ∀ origin, peer.inbound = some origin →
    origin = run.plan.platform (run.plan.prev r)

/-- The stream holds the frames of `pending`. -/
def Carries : List ActivationMsg → Bytes → Prop
  | [], stream => stream = []
  | msg :: pending, stream => ∃ bytes rest, run.outside.encodeActivation msg = some bytes ∧
      stream = bytes ++ rest ∧ Carries pending rest

/-- What rank `r` has sent was accepted by the next one or is in the stream. -/
def Link (ls : List PipelineLabel) (s : Pipeline) (r : ℕ) : Prop :=
  ∃ pending, sentBy ls (run.plan.platform r)
      = acceptedBy ls (run.plan.platform (run.plan.next r)) ++ pending ∧
    run.Carries pending (s.streams (run.plan.platform r))

/-- What is true of all ranks between two steps of a run. -/
structure Books (ls : List PipelineLabel) (s : Pipeline) : Prop where
  seated : ∀ p peer, s.processes p = .running peer →
    ∃ r < run.plan.size, p = run.plan.platform r ∧ run.Seated r peer
  targets : ∀ p address, s.targets p = some address →
    ∃ r < run.plan.size, p = run.plan.platform r ∧
      address = (run.plan.shard (run.plan.next r)).address
  links : ∀ r < run.plan.size, run.Link ls s r
  stages : ∀ r < run.plan.size, run.StageAt r (sentBy ls (run.plan.platform r))
    (acceptedBy ls (run.plan.platform r)) (s.processes (run.plan.platform r))
  reports : ∀ p report, .reported p report ∈ happenings ls → report.isMismatch = false
  done : ∀ tokens : ℤ, .done tokens ∈ happenings ls → tokens = run.tokenCount.toNat ∧
    run.tokenCount.toNat ≤ (acceptedBy ls (run.plan.platform 0)).length

variable {run}

/-- One more frame is in the stream. -/
theorem Carries.append {pending : List ActivationMsg} {stream bytes : Bytes} {msg : ActivationMsg}
    (h : run.Carries pending stream) (hbytes : run.outside.encodeActivation msg = some bytes) :
    run.Carries (pending ++ [msg]) (stream ++ bytes) := by
  induction pending generalizing stream with
  | nil =>
    obtain rfl : stream = [] := h
    exact ⟨bytes, [], hbytes, by simp, rfl⟩
  | cons first pending ih =>
    obtain ⟨head, rest, hhead, rfl, hrest⟩ := h
    exact ⟨head, rest ++ bytes, hhead, List.append_assoc _ _ _, ih hrest⟩

/-- A process that gives up keeps what it has done. -/
theorem StageAt.finish {r : ℕ} {sent accepted : List ActivationMsg} {process : Process}
    (h : run.StageAt r sent accepted process) : run.StageAt r sent accepted .finished := by
  rw [StageAt] at h ⊢
  split
  case isTrue hzero =>
    rw [if_pos hzero] at h
    obtain ⟨c, hc, hsent, -⟩ := h
    exact ⟨c, hc, hsent, trivial⟩
  case isFalse hpos =>
    rw [if_neg hpos] at h
    unfold WorkerAt at h ⊢
    split at h
    · rw [h.1]
      exact List.nil_prefix
    · split at h
      · rw [h.1]
        exact List.nil_prefix
      · rw [h.1]
        exact List.nil_prefix
      · rw [h]
      · exact ⟨_, h⟩
      · exact h
      · exact h.elim
    · exact h

/-- A process that is at no place of a worker is the frontend. -/
theorem StageAt.frontend {r : ℕ} {sent accepted : List ActivationMsg} {peer : Peer}
    (h : run.StageAt r sent accepted (.running peer))
    (hnot : ¬ run.WorkerAt r sent accepted (.running peer)) :
    r = 0 ∧ ∃ c ≤ run.tokenCount.toNat, sent = (List.range c).map run.source ∧
      run.FrontendAt c accepted.length (.running peer) := by
  rw [StageAt] at h
  split at h
  case isTrue hzero => exact ⟨hzero, h⟩
  case isFalse => exact absurd h hnot

/-- A process that is at no place of the frontend is a worker. -/
theorem StageAt.worker {r : ℕ} {sent accepted : List ActivationMsg} {peer : Peer}
    (h : run.StageAt r sent accepted (.running peer))
    (hnot : ∀ c, ¬ run.FrontendAt c accepted.length (.running peer)) :
    r ≠ 0 ∧ run.WorkerAt r sent accepted (.running peer) := by
  rw [StageAt] at h
  split at h
  case isTrue =>
    obtain ⟨c, -, -, hat⟩ := h
    exact absurd hat (hnot c)
  case isFalse hpos => exact ⟨hpos, h⟩

/-- The process is at another place of its program, and still that of its rank. -/
theorem Seated.moved {r : ℕ} {peer : Peer} (h : run.Seated r peer) (place : Place) :
    run.Seated r { peer with place := place } := ⟨h.granted, h.routed, h.inbound⟩

/-- What a process computes is within its budget. -/
theorem fits_of_seated {r : ℕ} {peer : Peer} (h : run.Seated r peer) {payload : Bytes} (t : ℕ)
    (hlength : payload.length = 4096) :
    ¬ ((run.setup.outside.fakeCompute payload peer.seat.my.layerCount t
      peer.seat.my.rank).length : ℤ) > peer.seat.bufBudget := by
  have hbudget := h.granted.bufBudget
  rw [defaultActivationBytes] at hbudget
  rw [run.setup.outside.length_fakeCompute, hlength]
  omega

/-- A process that has not connected yet. -/
def Unconnected : Process → Prop
  | .joined => True
  | .running peer => peer.place = .accepting ∨ peer.place = .connecting
  | .finished => False

/-- It has neither sent nor accepted anything. -/
theorem StageAt.nothing {r : ℕ} {sent accepted : List ActivationMsg} {process : Process}
    (h : run.StageAt r sent accepted process) (hnot : Unconnected process) :
    sent = [] ∧ accepted = [] := by
  rw [StageAt] at h
  split at h
  case isTrue hzero =>
    obtain ⟨c, -, rfl, hat⟩ := h
    cases process with
    | joined => exact ⟨by rw [hat.1]; rfl, List.eq_nil_of_length_eq_zero hat.2⟩
    | running peer =>
      rcases hnot with hplace | hplace <;> simp only [FrontendAt, hplace] at hat
      exact ⟨by rw [hat.1]; rfl, List.eq_nil_of_length_eq_zero hat.2⟩
    | finished => exact hnot.elim
  case isFalse =>
    cases process with
    | joined => exact h
    | running peer =>
      rcases hnot with hplace | hplace <;> simpa only [WorkerAt, hplace] using h
    | finished => exact hnot.elim

/-- A process that connects has neither sent nor accepted anything, so its place agrees with
    that. -/
theorem stageAt_connecting {r : ℕ} {peer : Peer} (hplace : peer.place = .connecting) :
    run.StageAt r [] [] (.running peer) := by
  rw [StageAt]
  split
  case isTrue => exact ⟨0, Nat.zero_le _, rfl, by simp [FrontendAt, hplace]⟩
  case isFalse => simp [WorkerAt, hplace]

namespace Books

variable {ls : List PipelineLabel} {s : Pipeline}

/-- The frontend's frames are those of the first tokens, in their order. -/
theorem sent_source (h : run.Books ls s) (hn : 0 < run.plan.size) :
    ∃ c ≤ run.tokenCount.toNat, sentBy ls (run.plan.platform 0) = (List.range c).map run.source ∧
      run.FrontendAt c (acceptedBy ls (run.plan.platform 0)).length
        (s.processes (run.plan.platform 0)) := by
  have hstage := h.stages 0 hn
  rwa [StageAt, if_pos rfl] at hstage

/-- The books are those of a ring of stages: each rank passes on what it accepts, in order, and
    loses nothing. -/
theorem conserved (h : run.Books ls s) (hn : 0 < run.plan.size) :
    StageRing.Conserved run.plan.size run.stage (fun r => acceptedBy ls (run.plan.platform r))
      (fun r => sentBy ls (run.plan.platform r)) where
  link r hr := by
    obtain ⟨pending, hsent, -⟩ := h.links r (by omega)
    rw [InferPlan.next, if_neg (by omega)] at hsent
    exact ⟨pending, hsent.symm⟩
  back := by
    obtain ⟨pending, hsent, -⟩ := h.links (run.plan.size - 1) (by omega)
    rw [InferPlan.next, if_pos (by omega)] at hsent
    exact ⟨pending, hsent.symm⟩
  work r hpos hr := by
    -- as if the process ended now
    have hstage := (h.stages r hr).finish
    rwa [StageAt, if_neg (by omega)] at hstage

/-- Every rank sends the frames of the first tokens. -/
theorem sent_frames (h : run.Books ls s) (hn : 0 < run.plan.size) :
    ∃ c ≤ run.tokenCount.toNat, ∀ r < run.plan.size,
      sentBy ls (run.plan.platform r) <+: (List.range c).map (run.frame r) := by
  obtain ⟨c, hc, hsource, -⟩ := h.sent_source hn
  refine ⟨c, hc, fun r hr => ?_⟩
  have hsent := (h.conserved hn).sent_through hr
  simp only [hsource, List.map_map] at hsent
  exact hsent

/-- The next frame of a stream is that of the token that is due. -/
theorem next_frame (h : run.Books ls s) {r : ℕ} (hr : r < run.plan.size) {msg : ActivationMsg}
    {pending : List ActivationMsg}
    (hsent : sentBy ls (run.plan.platform r)
      = acceptedBy ls (run.plan.platform (run.plan.next r)) ++ msg :: pending) :
    msg = run.frame r (acceptedBy ls (run.plan.platform (run.plan.next r))).length := by
  -- it stands in `sent` where the accepted ones end
  obtain ⟨c, -, hframes⟩ := h.sent_frames (by omega)
  obtain ⟨rest, hrest⟩ := hframes r hr
  rw [hsent, List.append_assoc] at hrest
  have hget := congrArg
    (·[(acceptedBy ls (run.plan.platform (run.plan.next r))).length]?) hrest
  simp only [List.getElem?_append_right (le_refl _), Nat.sub_self, List.cons_append,
    List.getElem?_cons_zero, List.getElem?_map] at hget
  obtain ⟨t, ht, hframe⟩ := Option.map_eq_some_iff.mp hget.symm
  obtain ⟨hlt, rfl⟩ := List.getElem?_eq_some_iff.mp ht
  rw [← hframe, List.getElem_range]

end Books

end InferRun

end ShareCompute.Simulation
