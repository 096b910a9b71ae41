import ShareCompute.Library.Tiling
import ShareCompute.Simulation.InferencePlan
import ShareCompute.Simulation.PoolLib
import ShareCompute.Simulation.PortableHub

namespace ShareCompute.Simulation.PoolLib

open ShareCompute.Library ShareCompute.Core

/-!
# The shard plans of the hubs

`four_platform_pool_lib.py` cuts a model's layers into one range a peer; the planners of the two
inference simulations choose the order of the peers, check the memory and keep the cut.

* `planShards` — `plan_shards`: apportioned layers, laid end to end.
* `Planners.planInferShards`, `Planners.planPortableShards` — the two planners.
* `Planners.shard_plans_sound` — what a returned plan guarantees, and that the order in which
  the peers joined does not show.

Python floats are read as rationals.
-/

/-! ### `plan_shards` -/

/-- What `plan_shards` reads of a peer: its platform, its name and its memory. -/
structure Peer where
  platform : String
  nodeId : String
  usableGb : ℚ

/-- A range of the layers for one peer, with the memory that it is estimated to take. -/
structure Shard where
  rank : ℕ
  platform : String
  nodeId : String
  startLayer : ℤ
  endLayer : ℤ
  estimatedGb : ℚ

/-- The memory `max(0.0, p.usable_gb - overhead_gb)` that is left for layers. -/
def capacity (overheadGb usableGb : ℚ) : ℚ := max 0 (usableGb - overheadGb)

/-- The weight `max(1, int(c * 1024))` of a capacity, in megabytes. -/
def weight (capacity : ℚ) : ℤ := max 1 (int (capacity * 1024))

/-- The loop over `enumerate(zip(peers, layers))`, with the last value of `cursor`. -/
def cutLayers (bytesPerLayer overheadGb : ℚ) : ℕ → ℤ → List (Peer × ℤ) → List Shard × ℤ
  | _, cursor, [] => ([], cursor)
  | rank, cursor, (peer, nLayers) :: items =>
      let (shards, last) :=
        cutLayers bytesPerLayer overheadGb (rank + 1) (cursor + nLayers) items
      (⟨rank, peer.platform, peer.nodeId, cursor, cursor + nLayers,
        nLayers * bytesPerLayer + overheadGb⟩ :: shards, last)

/-- The shards of `plan_shards`; `fuel` bounds the loop of `apportion`. -/
def planShards (fuel : ℕ) (peers : List Peer) (layerCount : ℤ) (totalWeightGb overheadGb : ℚ) :
    Option (Except Failure (List Shard)) :=
  let capacities := peers.map (fun p => capacity overheadGb p.usableGb)
  let weights := capacities.map weight
  match apportion fuel layerCount weights with
  | none => none
  | some (.error failure) => some (.error failure)
  | some (.ok layers) =>
      let (shards, cursor) :=
        cutLayers (totalWeightGb / layerCount) overheadGb 0 0 (peers.zip layers)
      if cursor = layerCount then some (.ok shards) else some (.error .assertionError)

/-- Every peer has a positive weight, so that every peer gets layers. -/
theorem weight_pos (c : ℚ) : 0 < weight c := lt_of_lt_of_le one_pos (le_max_left _ _)

/-- A shard is cut for its peer and costed for its own layers. -/
structure CutFor (bytesPerLayer overheadGb : ℚ) (s : Shard) (peer : Peer) : Prop where
  platform : s.platform = peer.platform
  nodeId : s.nodeId = peer.nodeId
  estimate : s.estimatedGb = (s.endLayer - s.startLayer : ℤ) * bytesPerLayer + overheadGb

/-- What the loop makes of the peers and of as many layers, none of them less than one. -/
theorem cutLayers_spec (bytesPerLayer overheadGb : ℚ) (rank : ℕ) (cursor : ℤ) (peers : List Peer)
    (layers : List ℤ) (hlength : layers.length = peers.length) (hpos : ∀ n ∈ layers, 1 ≤ n) :
    let cut := cutLayers bytesPerLayer overheadGb rank cursor (peers.zip layers)
    cut.2 = cursor + layers.sum ∧
      List.Forall₂ (CutFor bytesPerLayer overheadGb) cut.1 peers ∧
      cut.1.map Shard.rank = List.range' rank peers.length ∧
      Tiles cursor cut.2 (cut.1.map (fun s => (s.startLayer, s.endLayer))) := by
  induction peers generalizing rank cursor layers with
  | nil =>
    obtain rfl := List.length_eq_zero_iff.mp hlength
    exact ⟨by simp [cutLayers], .nil, rfl, rfl⟩
  | cons peer peers ih =>
    cases layers with
    | nil => simp at hlength
    | cons n layers =>
      have hn : 1 ≤ n := hpos n List.mem_cons_self
      obtain ⟨hlast, hcut, hranks, htiles⟩ := ih (rank + 1) (cursor + n) layers
        (by simpa using hlength) (fun m hm => hpos m (List.mem_cons_of_mem _ hm))
      refine ⟨?_, .cons ⟨rfl, rfl, ?_⟩ hcut, ?_, rfl, ?_, htiles⟩
      · show (cutLayers _ _ (rank + 1) (cursor + n) (peers.zip layers)).2 = _
        rw [hlast, List.sum_cons, add_assoc]
      · show _ = ((cursor + n - cursor : ℤ) : ℚ) * bytesPerLayer + overheadGb
        rw [add_sub_cancel_left]
      · rw [List.length_cons, List.range'_succ, ← hranks]
        rfl
      · show cursor < cursor + n
        omega

/-- What `plan_shards` returns: a shard for each peer, in the same order, tiling the layers. -/
structure Cut (layerCount : ℤ) (totalWeightGb overheadGb : ℚ) (peers : List Peer)
    (shards : List Shard) : Prop where
  cut : List.Forall₂ (CutFor (totalWeightGb / layerCount) overheadGb) shards peers
  ranks : shards.map Shard.rank = List.range peers.length
  layers : Tiles 0 layerCount (shards.map (fun s => (s.startLayer, s.endLayer)))

/-- **`plan_shards` returns** for at most as many peers as layers, however large they are. -/
theorem planShards_ok {peers : List Peer} {layerCount : ℤ} (totalWeightGb overheadGb : ℚ)
    (hne : peers ≠ []) (hlayers : (peers.length : ℤ) ≤ layerCount) :
    ∃ shards, Cut layerCount totalWeightGb overheadGb peers shards ∧
      ∀ fuel, peers.length < fuel →
        planShards fuel peers layerCount totalWeightGb overheadGb = some (.ok shards) := by
  have hlength : ((peers.map (fun p => capacity overheadGb p.usableGb)).map weight).length
      = peers.length := by simp
  have hpos : 0 < peers.length := List.length_pos_iff.mpr hne
  have hnonneg : ∀ w ∈ (peers.map (fun p => capacity overheadGb p.usableGb)).map weight, 0 ≤ w := by
    intro w hw
    obtain ⟨c, -, rfl⟩ := List.mem_map.mp hw
    exact (weight_pos c).le
  generalize hweights : (peers.map (fun p => capacity overheadGb p.usableGb)).map weight = weights
    at hlength hnonneg
  have hcount : (weights.length : ℤ) ≤ layerCount := by omega
  have hweights_pos : 0 < weights.length := by omega
  obtain ⟨layers, hcore, hends⟩ := apportions_agree hweights_pos hcount hnonneg
  -- the planner's own guarantee carries over to its twin
  obtain ⟨layers', hcore', hspread, hfed⟩ :=
    apportion_ok (List.ne_nil_of_length_pos hweights_pos) hcount hnonneg
  obtain rfl := Except.ok.inj (hcore.symm.trans hcore')
  obtain ⟨hlast, hcut, hranks, htiles⟩ := cutLayers_spec (totalWeightGb / layerCount) overheadGb
    0 0 peers layers (hspread.length.trans hlength) hfed
  rw [zero_add, hspread.sum] at hlast
  rw [hlast] at htiles
  refine ⟨_, ⟨hcut, by rw [hranks, List.range_eq_range'], htiles⟩, fun fuel hfuel => ?_⟩
  rw [planShards]
  simp only [hweights, hends fuel (by omega)]
  exact if_pos hlast

end ShareCompute.Simulation.PoolLib

namespace ShareCompute.Simulation.Planners

open ShareCompute.Library

/-! ### The two planners -/

/-- `InferPeer` and `PortablePeer` have the same fields. -/
abbrev Peer := PortablePeer ℚ

/-- What is raised instead of returning a plan; each `ValueError` with what its text prints. -/
inductive Failure
  /-- by `plan_shards` -/
  | raised (failure : PoolLib.Failure)
  | notInSeats (platform : String)
  | frontends (count : ℕ)
  | workers (count : ℕ)
  /-- the model does not fit what the overhead leaves -/
  | insufficientCapacity (usable overhead capacity model : ℚ)
  /-- the model and one overhead do not fit the usable memory -/
  | insufficientUsable (usable required : ℚ)
  | shardTooLarge (rank : ℕ) (platform : String) (estimated usable : ℚ)
deriving DecidableEq

/-- `1e-9`, what a comparison of gigabytes forgives. -/
def tolerance : ℚ := 1 / 10 ^ 9

/-- The loop over `zip(raw, ordered)`, which raises for the first shard that is too large. -/
def checkShards : List (PoolLib.Shard × Peer) → Except Failure (List InferShard)
  | [] => .ok []
  | (shard, peer) :: items =>
      if shard.estimatedGb > peer.usableGb + tolerance then
        .error (.shardTooLarge shard.rank peer.platform shard.estimatedGb peer.usableGb)
      else
        match checkShards items with
        | .error failure => .error failure
        | .ok out =>
            .ok (⟨shard.rank, peer.platform, peer.nodeId, peer.role, shard.startLayer,
              shard.endLayer, some shard.estimatedGb, peer.dataHost, peer.dataPort⟩ :: out)

/-- What both planners do with the peers in the order of their ranks. -/
def planOrdered (fuel : ℕ) (ordered : List Peer) (layerCount : ℤ)
    (totalWeightGb overheadGb : ℚ) : Option (Except Failure (List InferShard)) :=
  let aggregateUsable := (ordered.map (·.usableGb)).sum
  let aggregateCapacity := (ordered.map (fun p => PoolLib.capacity overheadGb p.usableGb)).sum
  if aggregateCapacity + tolerance < totalWeightGb then
    some (.error (.insufficientCapacity aggregateUsable overheadGb aggregateCapacity totalWeightGb))
  else if aggregateUsable + tolerance < totalWeightGb + overheadGb then
    some (.error (.insufficientUsable aggregateUsable (totalWeightGb + overheadGb)))
  else
    let base := ordered.map (fun p => (⟨p.platform, p.nodeId, p.usableGb⟩ : PoolLib.Peer))
    match PoolLib.planShards fuel base layerCount totalWeightGb overheadGb with
    | none => none
    | some (.error failure) => some (.error (.raised failure))
    | some (.ok raw) => some (checkShards (raw.zip ordered))

/-- The peers that joined as the frontend; a plan needs exactly one. -/
def frontendsOf (peers : List Peer) : List Peer := peers.filter (fun p => p.role = "frontend")

/-- The peers that joined as workers, in the order in which they are listed. -/
def workersOf (peers : List Peer) : List Peer := peers.filter (fun p => p.role = "worker")

/-- The one frontend, then the workers by platform. -/
def planInferShards (fuel : ℕ) (peers : List Peer) (layerCount : ℤ)
    (totalWeightGb overheadGb : ℚ) : Option (Except Failure (List InferShard)) :=
  match frontendsOf peers with
  | [frontend] =>
      planOrdered fuel
        (frontend :: (workersOf peers).insertionSort (fun a b => a.platform ≤ b.platform))
        layerCount totalWeightGb overheadGb
  | others => some (.error (.frontends others.length))

/-- One frontend and one worker, both in the portable seats. -/
def planPortableShards (fuel : ℕ) (peers : List Peer) (layerCount : ℤ)
    (totalWeightGb overheadGb : ℚ) : Option (Except Failure (List InferShard)) :=
  match peers.find? (fun p => p.platform ∉ portableSeats) with
  | some p => some (.error (.notInSeats p.platform))
  | none =>
      match frontendsOf peers, workersOf peers with
      | [frontend], [worker] =>
          planOrdered fuel [frontend, worker] layerCount totalWeightGb overheadGb
      | [_], others => some (.error (.workers others.length))
      | others, _ => some (.error (.frontends others.length))

/-! ### What a plan guarantees -/

/-- A shard is its peer's, and within the peer's own memory. -/
structure SeatOf (s : InferShard) (peer : Peer) : Prop where
  platform : s.platform = peer.platform
  nodeId : s.nodeId = peer.nodeId
  role : s.role = peer.role
  address : s.address = (peer.dataHost, peer.dataPort)
  fits : ∃ gb, s.estimatedGb = some gb ∧ gb ≤ peer.usableGb + tolerance

/-- A plan for the peers in the order of their ranks. -/
structure Sound (layerCount : ℤ) (ordered : List Peer) (shards : List InferShard) : Prop where
  nonempty : shards ≠ []
  seats : List.Forall₂ SeatOf shards ordered
  ranks : shards.map InferShard.rank = (List.range shards.length).map Nat.cast
  frontend : ∀ s ∈ shards, s.role = "frontend" ↔ s.rank = 0
  /-- non-empty ranges, end to end from layer `0` to the last -/
  layers : Tiles 0 layerCount (shards.map (fun s => (s.startLayer, s.endLayer)))

/-- The shards that pass the check keep their ranks and ranges. -/
theorem checkShards_ok {raw : List PoolLib.Shard} {ordered : List Peer} {shards : List InferShard}
    (hlength : raw.length = ordered.length) (h : checkShards (raw.zip ordered) = .ok shards) :
    List.Forall₂ SeatOf shards ordered ∧
      shards.map InferShard.rank = raw.map (fun s => (s.rank : ℤ)) ∧
      shards.map (fun s => (s.startLayer, s.endLayer))
        = raw.map (fun s => (s.startLayer, s.endLayer)) := by
  induction ordered generalizing raw shards with
  | nil =>
    obtain rfl := List.length_eq_zero_iff.mp hlength
    obtain rfl := Except.ok.inj h
    exact ⟨.nil, rfl, rfl⟩
  | cons peer ordered ih =>
    cases raw with
    | nil => simp at hlength
    | cons shard raw =>
      rw [List.zip_cons_cons, checkShards] at h
      split at h
      case isTrue => cases h
      case isFalse hfits =>
        cases hrest : checkShards (raw.zip ordered) with
        | error failure => simp [hrest] at h
        | ok out =>
          rw [hrest] at h
          obtain rfl := Except.ok.inj h
          obtain ⟨hseats, hranks, hlayers⟩ := ih (by simpa using hlength) hrest
          refine ⟨.cons ⟨rfl, rfl, rfl, rfl, _, rfl, not_lt.mp hfits⟩ hseats, ?_, ?_⟩
          · rw [List.map_cons, List.map_cons, hranks]
          · rw [List.map_cons, List.map_cons, hlayers]

/-- With more fuel than peers the run ends, always the same way; and a plan it returns is the
    cut of `plan_shards`, checked. -/
theorem planOrdered_cases {ordered : List Peer} {layerCount : ℤ} (totalWeightGb overheadGb : ℚ)
    (hne : ordered ≠ []) (hlayers : (ordered.length : ℤ) ≤ layerCount) :
    ∃ result, (∀ fuel, ordered.length < fuel →
        planOrdered fuel ordered layerCount totalWeightGb overheadGb = some result) ∧
      ∀ shards, result = .ok shards →
        List.Forall₂ SeatOf shards ordered ∧
        shards.map InferShard.rank = (List.range ordered.length).map Nat.cast ∧
        Tiles 0 layerCount (shards.map (fun s => (s.startLayer, s.endLayer))) := by
  have hbase : ordered.map (fun p => (⟨p.platform, p.nodeId, p.usableGb⟩ : PoolLib.Peer)) ≠ [] := by
    simpa using hne
  obtain ⟨raw, hcut, hends⟩ := PoolLib.planShards_ok totalWeightGb overheadGb hbase
    (show _ ≤ layerCount by simpa using hlayers)
  rw [List.length_map] at hends
  simp only [planOrdered]
  split_ifs with hcapacity husable
  · exact ⟨_, fun _ _ => rfl, fun _ h => by cases h⟩
  · exact ⟨_, fun _ _ => rfl, fun _ h => by cases h⟩
  · refine ⟨checkShards (raw.zip ordered), fun fuel hfuel => by rw [hends fuel hfuel], ?_⟩
    intro shards hok
    have hlength : raw.length = ordered.length := by
      rw [hcut.cut.length_eq, List.length_map]
    obtain ⟨hseats, hranks, hranges⟩ := checkShards_ok hlength hok
    refine ⟨hseats, ?_, hranges ▸ hcut.layers⟩
    have hcast := congrArg (List.map (Nat.cast : ℕ → ℤ)) hcut.ranks
    rw [List.map_map, List.length_map] at hcast
    exact hranks.trans hcast

/-- A sound plan once the first peer is the only frontend. -/
theorem sound_of_ordered {frontend : Peer} {workers : List Peer} {layerCount : ℤ}
    {shards : List InferShard} (hfrontend : frontend.role = "frontend")
    (hworkers : ∀ p ∈ workers, p.role = "worker")
    (hseats : List.Forall₂ SeatOf shards (frontend :: workers))
    (hranks : shards.map InferShard.rank
      = (List.range (frontend :: workers).length).map Nat.cast)
    (hlayers : Tiles 0 layerCount (shards.map (fun s => (s.startLayer, s.endLayer)))) :
    Sound layerCount (frontend :: workers) shards := by
  have hlength : shards.length = (frontend :: workers).length := hseats.length_eq
  refine ⟨List.ne_nil_of_length_pos (by simp [hlength]), hseats, by rw [hranks, hlength], ?_,
    hlayers⟩
  intro s hs
  obtain ⟨i, hi, rfl⟩ := List.getElem_of_mem hs
  -- the ranks are the places in the list
  have hrank : shards[i].rank = i := by
    have hget : (shards.map InferShard.rank)[i]?
        = ((List.range shards.length).map Nat.cast)[i]? := by
      rw [hranks, hlength]
    rw [List.getElem?_map, List.getElem?_map, List.getElem?_range hi,
      List.getElem?_eq_getElem hi] at hget
    exact Option.some.inj hget
  have hseat := hseats.get hi (hlength ▸ hi)
  rw [List.get_eq_getElem, List.get_eq_getElem] at hseat
  rw [hrank, hseat.role]
  -- the frontend is first, and the workers are behind it
  cases i with
  | zero => simpa using hfrontend
  | succ i =>
    have hworker := hworkers _ (List.getElem_mem (show i < workers.length by
      rw [hlength] at hi
      simpa using hi))
    rw [List.getElem_cons_succ, hworker]
    simp only [String.reduceEq, false_iff]
    omega

/-! ### The order of joining -/

/-- The frontends and the workers, without what other roles there are. -/
theorem length_frontends_add_workers (peers : List Peer) :
    (frontendsOf peers).length + (workersOf peers).length ≤ peers.length := by
  have hothers : (workersOf peers).Sublist
      (peers.filter (fun p => !decide (p.role = "frontend"))) := by
    have hworkers : workersOf peers = (peers.filter (fun p => !decide (p.role = "frontend"))).filter
        (fun p => p.role = "worker") := by
      rw [workersOf, List.filter_filter]
      refine List.filter_congr fun p _ => ?_
      by_cases hrole : p.role = "worker" <;> simp [hrole]
    rw [hworkers]
    exact List.filter_sublist
  have hperm := (List.filter_append_perm (fun p : Peer => p.role = "frontend") peers).length_eq
  rw [List.length_append] at hperm
  have := hothers.length_le
  rw [frontendsOf]
  omega

/-- When there are no other roles, these are all peers. -/
theorem perm_frontends_append_workers {peers : List Peer}
    (hroles : ∀ p ∈ peers, p.role = "frontend" ∨ p.role = "worker") :
    (frontendsOf peers ++ workersOf peers).Perm peers := by
  have hworkers : workersOf peers = peers.filter (fun p => !decide (p.role = "frontend")) := by
    refine List.filter_congr fun p hp => ?_
    rcases hroles p hp with hrole | hrole <;> simp [hrole]
  rw [hworkers]
  exact List.filter_append_perm _ peers

/-- The frontends are the peers with this role. -/
theorem mem_frontendsOf {peers : List Peer} {p : Peer} :
    p ∈ frontendsOf peers ↔ p ∈ peers ∧ p.role = "frontend" := by
  simp [frontendsOf]

/-- The workers are the peers with this role. -/
theorem mem_workersOf {peers : List Peer} {p : Peer} :
    p ∈ workersOf peers ↔ p ∈ peers ∧ p.role = "worker" := by
  simp [workersOf]

/-- A list that permutes one of at most one element is that list. -/
theorem eq_of_perm_singleton {α : Type} {xs ys : List α} {x : α} (hperm : xs.Perm ys)
    (hxs : xs = [x]) : ys = [x] :=
  List.perm_singleton.mp (hxs ▸ hperm.symm)

/-- A planner; the first argument bounds the loop of the apportionment. -/
abbrev Planner := ℕ → List Peer → ℤ → ℚ → ℚ → Option (Except Failure (List InferShard))

/-- How the run ends, with rounds enough. -/
def Returns (plan : Planner) (peers : List Peer) (layerCount : ℤ) (totalWeightGb overheadGb : ℚ)
    (result : Except Failure (List InferShard)) : Prop :=
  ∀ fuel, peers.length < fuel → plan fuel peers layerCount totalWeightGb overheadGb = some result

/-- A planner ends; its plans are sound, and for all peers when `listed`; and they are the same
    for every order of the peers. -/
structure PlansSoundly (plan : Planner) (peers : List Peer) (layerCount : ℤ)
    (totalWeightGb overheadGb : ℚ) (listed : Prop) : Prop where
  ends : ∃ result, Returns plan peers layerCount totalWeightGb overheadGb result
  sound : ∀ shards, Returns plan peers layerCount totalWeightGb overheadGb (.ok shards) →
    ∃ ordered, Sound layerCount ordered shards ∧ (∀ p ∈ ordered, p ∈ peers) ∧
      (listed → ordered.Perm peers)
  order : ∀ peers' : List Peer, peers.Perm peers' → ∀ shards,
    Returns plan peers layerCount totalWeightGb overheadGb (.ok shards) ↔
      Returns plan peers' layerCount totalWeightGb overheadGb (.ok shards)

variable {peers peers' : List Peer} {layerCount : ℤ} {totalWeightGb overheadGb : ℚ}

/-- Two orders of the peers for which the planner does the same end the same way. -/
theorem returns_iff_of_eq {plan : Planner} (hperm : peers.Perm peers')
    (heq : ∀ fuel, plan fuel peers layerCount totalWeightGb overheadGb
      = plan fuel peers' layerCount totalWeightGb overheadGb)
    (result : Except Failure (List InferShard)) :
    Returns plan peers layerCount totalWeightGb overheadGb result ↔
      Returns plan peers' layerCount totalWeightGb overheadGb result := by
  simp only [Returns, heq, hperm.length_eq]

/-- What is left of a planner once the peers are in the order of their ranks. -/
theorem plansSoundly_of_ordered {plan : Planner} {frontend : Peer} {workers : List Peer}
    {listed : Prop}
    (hplan : ∀ fuel, plan fuel peers layerCount totalWeightGb overheadGb
      = planOrdered fuel (frontend :: workers) layerCount totalWeightGb overheadGb)
    (hfrontend : frontend ∈ peers ∧ frontend.role = "frontend")
    (hworkers : ∀ p ∈ workers, p ∈ peers ∧ p.role = "worker")
    (hlength : (frontend :: workers).length ≤ peers.length)
    (hlayers : (peers.length : ℤ) ≤ layerCount)
    (hlisted : listed → (frontend :: workers).Perm peers)
    (horder : ∀ peers' : List Peer, peers.Perm peers' → ∀ shards,
      Returns plan peers layerCount totalWeightGb overheadGb (.ok shards) ↔
        Returns plan peers' layerCount totalWeightGb overheadGb (.ok shards)) :
    PlansSoundly plan peers layerCount totalWeightGb overheadGb listed := by
  have hfits : ((frontend :: workers).length : ℤ) ≤ layerCount := by omega
  obtain ⟨result, hends, hok⟩ :=
    planOrdered_cases totalWeightGb overheadGb (List.cons_ne_nil frontend workers) hfits
  have hreturns : Returns plan peers layerCount totalWeightGb overheadGb result := by
    intro fuel hfuel
    rw [hplan, hends fuel (by omega)]
  refine ⟨⟨result, hreturns⟩, fun shards hshards => ?_, horder⟩
  have hresult : result = .ok shards := by
    have hfuel := Nat.lt_succ_self peers.length
    exact Option.some.inj ((hreturns _ hfuel).symm.trans (hshards _ hfuel))
  obtain ⟨hseats, hranks, htiles⟩ := hok shards hresult
  refine ⟨frontend :: workers, sound_of_ordered hfrontend.2 (fun p hp => (hworkers p hp).2) hseats
    hranks htiles, ?_, hlisted⟩
  intro p hp
  rcases List.mem_cons.mp hp with rfl | hp
  · exact hfrontend.1
  · exact (hworkers p hp).1

/-- A planner that raises for every order of the peers. -/
theorem plansSoundly_of_error {plan : Planner} {listed : Prop}
    (hplan : ∀ peers' : List Peer, peers.Perm peers' →
      ∃ failure, ∀ fuel, plan fuel peers' layerCount totalWeightGb overheadGb
        = some (.error failure)) :
    PlansSoundly plan peers layerCount totalWeightGb overheadGb listed := by
  have hnever : ∀ peers' : List Peer, peers.Perm peers' → ∀ shards,
      ¬ Returns plan peers' layerCount totalWeightGb overheadGb (.ok shards) := by
    intro peers' hperm shards hok
    obtain ⟨failure, hfailure⟩ := hplan peers' hperm
    have hlast := hok (peers'.length + 1) (Nat.lt_succ_self _)
    rw [hfailure] at hlast
    cases hlast
  obtain ⟨failure, hfailure⟩ := hplan peers (List.Perm.refl _)
  refine ⟨⟨.error failure, fun fuel _ => hfailure fuel⟩, fun shards hok => ?_, ?_⟩
  · exact absurd hok (hnever peers (List.Perm.refl _) shards)
  · intro peers' hperm shards
    exact ⟨fun hok => absurd hok (hnever peers (List.Perm.refl _) shards),
      fun hok => absurd hok (hnever peers' hperm shards)⟩

/-- The frontend is alone or it is not, whatever the order. -/
theorem planInferShards_perm (hperm : peers.Perm peers')
    (hdistinct : (peers.map PortablePeer.platform).Nodup) (fuel : ℕ) :
    planInferShards fuel peers layerCount totalWeightGb overheadGb
      = planInferShards fuel peers' layerCount totalWeightGb overheadGb := by
  have hfrontends : (frontendsOf peers).Perm (frontendsOf peers') := hperm.filter _
  have hworkers := Dictionary.insertionSort_eq_of_perm PortablePeer.platform
    (hperm.filter (fun p => p.role = "worker"))
    (hdistinct.sublist (List.filter_sublist.map PortablePeer.platform))
  simp only [planInferShards, workersOf, hworkers]
  split
  case h_1 frontend hone => rw [eq_of_perm_singleton hfrontends hone]
  case h_2 others hmany =>
    split
    case h_1 frontend hone => exact absurd (eq_of_perm_singleton hfrontends.symm hone) (hmany _)
    case h_2 => rw [hfrontends.length_eq]

/-- `plan_infer_shards` plans soundly, with its peers in the order frontend first and then by
    platform. -/
theorem planInferShards_sound (hdistinct : (peers.map PortablePeer.platform).Nodup)
    (hlayers : (peers.length : ℤ) ≤ layerCount) :
    PlansSoundly planInferShards peers layerCount totalWeightGb overheadGb
      (∀ p ∈ peers, p.role = "frontend" ∨ p.role = "worker") := by
  have hperm_sort := List.perm_insertionSort (fun a b : Peer => a.platform ≤ b.platform)
    (workersOf peers)
  by_cases hone : ∃ frontend, frontendsOf peers = [frontend]
  · obtain ⟨frontend, hfrontend⟩ := hone
    have hlength := length_frontends_add_workers peers
    rw [hfrontend, List.length_singleton] at hlength
    refine plansSoundly_of_ordered (fun fuel => ?_)
      (mem_frontendsOf.mp (hfrontend ▸ List.mem_singleton_self frontend))
      (fun p hp => mem_workersOf.mp (hperm_sort.mem_iff.mp hp)) ?_ hlayers (fun hroles => ?_)
      (fun peers' hperm shards => returns_iff_of_eq hperm
        (fun fuel => planInferShards_perm hperm hdistinct fuel) _)
    · rw [planInferShards, hfrontend]
    · rw [List.length_cons, hperm_sort.length_eq]
      omega
    · have hall := perm_frontends_append_workers hroles
      rw [hfrontend] at hall
      exact (hperm_sort.cons frontend).trans hall
  · refine plansSoundly_of_error fun peers' hperm => ⟨.frontends (frontendsOf peers).length, ?_⟩
    intro fuel
    rw [← planInferShards_perm hperm hdistinct, planInferShards]
    split
    case h_1 frontend hfrontend => exact absurd ⟨frontend, hfrontend⟩ hone
    case h_2 => rfl

/-- Past the seats, the portable planner sees the two groups only. -/
theorem planPortableShards_of_seats (hseats : ∀ p ∈ peers, p.platform ∈ portableSeats) (fuel : ℕ) :
    planPortableShards fuel peers layerCount totalWeightGb overheadGb
      = match frontendsOf peers, workersOf peers with
        | [frontend], [worker] =>
            planOrdered fuel [frontend, worker] layerCount totalWeightGb overheadGb
        | [_], others => some (.error (.workers others.length))
        | others, _ => some (.error (.frontends others.length)) := by
  have hnone : peers.find? (fun p => p.platform ∉ portableSeats) = none := by
    rw [List.find?_eq_none]
    intro p hp
    simpa using hseats p hp
  rw [planPortableShards, hnone]

/-- With one frontend and one worker in the seats, the portable planner plans for these two in this
    order. -/
theorem planPortableShards_of_pair (hseats : ∀ p ∈ peers, p.platform ∈ portableSeats)
    {frontend worker : Peer} (hfrontend : frontendsOf peers = [frontend])
    (hworker : workersOf peers = [worker]) (fuel : ℕ) :
    planPortableShards fuel peers layerCount totalWeightGb overheadGb
      = planOrdered fuel [frontend, worker] layerCount totalWeightGb overheadGb := by
  rw [planPortableShards_of_seats hseats, hfrontend, hworker]

/-- Without one frontend and one worker in the portable seats there is no plan. -/
theorem planPortableShards_of_no_pair
    (hnone : ¬ ((∀ p ∈ peers, p.platform ∈ portableSeats) ∧
      (∃ frontend, frontendsOf peers = [frontend]) ∧ ∃ worker, workersOf peers = [worker])) :
    ∃ failure, ∀ fuel, planPortableShards fuel peers layerCount totalWeightGb overheadGb
      = some (.error failure) := by
  by_cases hseats : ∀ p ∈ peers, p.platform ∈ portableSeats
  · simp only [planPortableShards_of_seats hseats]
    split
    case h_1 frontend worker hfrontend hworker =>
      exact absurd ⟨hseats, ⟨frontend, hfrontend⟩, worker, hworker⟩ hnone
    case h_2 => exact ⟨_, fun _ => rfl⟩
    case h_3 => exact ⟨_, fun _ => rfl⟩
  · simp only [planPortableShards]
    cases hfind : peers.find? (fun p => p.platform ∉ portableSeats) with
    | some p => exact ⟨_, fun _ => rfl⟩
    | none =>
      refine absurd (fun p hp => ?_) hseats
      simpa using List.find?_eq_none.mp hfind p hp

/-- Two peers in the two seats are all there are. -/
theorem pair_perm_peers (hdistinct : (peers.map PortablePeer.platform).Nodup)
    (hseats : ∀ p ∈ peers, p.platform ∈ portableSeats) {frontend worker : Peer}
    (hfrontend : frontend ∈ peers ∧ frontend.role = "frontend")
    (hworker : worker ∈ peers ∧ worker.role = "worker") : [frontend, worker].Perm peers := by
  have hne : frontend ≠ worker := by
    rintro rfl
    have hroles := hfrontend.2.symm.trans hworker.2
    simp at hroles
  have hpair : [frontend, worker].Nodup := by simpa using hne
  have hsub : [frontend, worker].Subperm peers := by
    refine List.subperm_of_subset hpair ?_
    simp [hfrontend.1, hworker.1]
  have htwo : (peers.map PortablePeer.platform).length ≤ portableSeats.length := by
    refine (List.subperm_of_subset hdistinct ?_).length_le
    intro platform hplatform
    obtain ⟨p, hp, rfl⟩ := List.mem_map.mp hplatform
    exact hseats p hp
  rw [List.length_map] at htwo
  exact hsub.perm_of_length_le htwo

/-- `plan_portable_shards` plans soundly, for one frontend and one worker. -/
theorem planPortableShards_sound (hdistinct : (peers.map PortablePeer.platform).Nodup)
    (hlayers : (peers.length : ℤ) ≤ layerCount) :
    PlansSoundly planPortableShards peers layerCount totalWeightGb overheadGb True := by
  by_cases hpair : (∀ p ∈ peers, p.platform ∈ portableSeats) ∧
      (∃ frontend, frontendsOf peers = [frontend]) ∧ ∃ worker, workersOf peers = [worker]
  · obtain ⟨hseats, ⟨frontend, hfrontend⟩, worker, hworker⟩ := hpair
    have hfrontend' := mem_frontendsOf.mp (hfrontend ▸ List.mem_singleton_self frontend)
    have hworker' := mem_workersOf.mp (hworker ▸ List.mem_singleton_self worker)
    have hall := pair_perm_peers hdistinct hseats hfrontend' hworker'
    refine plansSoundly_of_ordered (planPortableShards_of_pair hseats hfrontend hworker) hfrontend'
      (fun p hp => List.mem_singleton.mp hp ▸ hworker') hall.length_eq.le hlayers (fun _ => hall)
      fun peers' hperm shards => returns_iff_of_eq hperm (fun fuel => ?_) _
    rw [planPortableShards_of_pair hseats hfrontend hworker,
      planPortableShards_of_pair (fun p hp => hseats p (hperm.mem_iff.mpr hp))
        (eq_of_perm_singleton (hperm.filter _) hfrontend)
        (eq_of_perm_singleton (hperm.filter _) hworker)]
  · refine plansSoundly_of_error fun peers' hperm => planPortableShards_of_no_pair fun hpair' => ?_
    obtain ⟨hseats, ⟨frontend, hfrontend⟩, worker, hworker⟩ := hpair'
    exact hpair ⟨fun p hp => hseats p (hperm.mem_iff.mp hp),
      ⟨frontend, eq_of_perm_singleton (hperm.symm.filter _) hfrontend⟩,
      worker, eq_of_perm_singleton (hperm.symm.filter _) hworker⟩

/-! ### The planners -/

/-- **The hubs' plans are sound.**  For peers on different platforms and at least as many layers,
    both planners end; a plan they return gives rank 0 to the frontend, tiles the layers and
    keeps every shard within its peer's memory, one shard a peer (the hub lets no other role
    join); and it is the same for every order in which the peers joined. -/
theorem shard_plans_sound (peers : List Peer) (layerCount : ℤ) (totalWeightGb overheadGb : ℚ)
    (hdistinct : (peers.map PortablePeer.platform).Nodup)
    (hlayers : (peers.length : ℤ) ≤ layerCount) :
    PlansSoundly planInferShards peers layerCount totalWeightGb overheadGb
        (∀ p ∈ peers, p.role = "frontend" ∨ p.role = "worker") ∧
      PlansSoundly planPortableShards peers layerCount totalWeightGb overheadGb True :=
  ⟨planInferShards_sound hdistinct hlayers, planPortableShards_sound hdistinct hlayers⟩

/-- An iPhone in front of a laptop. -/
def pair : List Peer :=
  [⟨"windows", "w", 16, "worker", "10.0.0.2", 7001⟩, ⟨"ios", "i", 6, "frontend", "10.0.0.1", 7000⟩]

/-- For the two devices of the example both planners plan soundly. -/
theorem shard_plans_sound_pair :
    PlansSoundly planInferShards pair 32 12 (1 / 2)
        (∀ p ∈ pair, p.role = "frontend" ∨ p.role = "worker") ∧
      PlansSoundly planPortableShards pair 32 12 (1 / 2) True :=
  shard_plans_sound pair 32 12 (1 / 2) (by decide) (by decide)

/-- The frontend joined second and has rank 0; the laptop takes three quarters of the layers. -/
example : (planPortableShards 3 pair 32 12 (1 / 2)).map (Except.map (List.map fun s =>
    (s.rank, s.platform, s.startLayer, s.endLayer)))
      = some (.ok [(0, "ios", 0, 8), (1, "windows", 8, 32)]) := by
  decide +kernel

/-! ### The ring of a returned plan -/

/-- What a shard takes from its peer is, along the plan, what the peers have in their order. -/
theorem Sound.map_key {β : Type} {ordered : List Peer} {shards : List InferShard}
    (h : Sound layerCount ordered shards) {key : InferShard → β} {key' : Peer → β}
    (hkey : ∀ s p, SeatOf s p → key s = key' p) : shards.map key = ordered.map key' := by
  rw [← List.forall₂_eq_eq_eq, List.forall₂_map_left_iff, List.forall₂_map_right_iff]
  exact h.seats.imp hkey

/-- What tells the peers apart tells the shards of a returned plan apart. -/
theorem nodup_of_returns {β : Type} {shards : List InferShard} {key : InferShard → β}
    {key' : Peer → β} (hdistinct : (peers.map PortablePeer.platform).Nodup)
    (hlayers : (peers.length : ℤ) ≤ layerCount)
    (hroles : ∀ p ∈ peers, p.role = "frontend" ∨ p.role = "worker")
    (h : Returns planInferShards peers layerCount totalWeightGb overheadGb (.ok shards))
    (hkey : ∀ s p, SeatOf s p → key s = key' p) (hpeers : (peers.map key').Nodup) :
    (shards.map key).Nodup := by
  obtain ⟨ordered, hsound, -, hperm⟩ := (planInferShards_sound hdistinct hlayers).sound shards h
  rw [hsound.map_key hkey]
  exact ((hperm hroles).map key').nodup_iff.mpr hpeers

/-- The plan of the ring that `plan_infer_shards` returns for peers at different addresses: its
    ranks, platforms and addresses are what the ring needs, whatever the memory of the peers. -/
def ringOf (shards : List InferShard) (hdistinct : (peers.map PortablePeer.platform).Nodup)
    (haddresses : (peers.map (fun p => (p.dataHost, p.dataPort))).Nodup)
    (hlayers : (peers.length : ℤ) ≤ layerCount)
    (hroles : ∀ p ∈ peers, p.role = "frontend" ∨ p.role = "worker")
    (h : Returns planInferShards peers layerCount totalWeightGb overheadGb (.ok shards)) :
    InferPlan where
  shards := shards
  ranks := by
    obtain ⟨_, hsound, -⟩ := (planInferShards_sound hdistinct hlayers).sound shards h
    exact List.Perm.of_eq hsound.ranks
  platforms := nodup_of_returns hdistinct hlayers hroles h (fun _ _ hseat => hseat.platform)
    hdistinct
  addresses := nodup_of_returns hdistinct hlayers hroles h (fun _ _ hseat => hseat.address)
    haddresses
  frontend := by
    obtain ⟨_, hsound, -⟩ := (planInferShards_sound hdistinct hlayers).sound shards h
    exact hsound.frontend

/-- A run of the planner that returns a plan with some fuel returns it with any that is enough. -/
theorem returns_of_run {shards : List InferShard}
    (hdistinct : (peers.map PortablePeer.platform).Nodup)
    (hlayers : (peers.length : ℤ) ≤ layerCount)
    (h : planInferShards (peers.length + 1) peers layerCount totalWeightGb overheadGb
      = some (.ok shards)) :
    Returns planInferShards peers layerCount totalWeightGb overheadGb (.ok shards) := by
  obtain ⟨result, hreturns⟩ := (@planInferShards_sound peers layerCount totalWeightGb overheadGb
    hdistinct hlayers).ends
  have hresult := Option.some.inj ((hreturns _ (Nat.lt_succ_self _)).symm.trans h)
  exact hresult ▸ hreturns

end ShareCompute.Simulation.Planners
