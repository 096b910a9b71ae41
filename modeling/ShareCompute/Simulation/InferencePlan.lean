import Mathlib.Data.List.Perm.Basic
import Mathlib.Data.List.Nodup
import Mathlib.Data.List.GetD
import ShareCompute.Simulation.InferencePipeline

namespace ShareCompute.Simulation

open ShareCompute.Library ShareCompute.Cluster

/-!
# The ring of a plan

A plan of the hub gives each platform one rank of `0` to `n - 1`, and every peer gets it as a
dictionary.  Each finds in it the peers before and after its own.

* `InferPlan` — what the hub plans; `InferPlan.shard r` has rank `r`.
* `InferPlan.prepare_cases` — what a peer makes of the dictionary.
* `frontendRoute_of_granted`, `workerRoute_of_granted` — it sends to the next rank and expects
  frames of the one before.
-/

/-- One rank a platform, and an address of its own; rank 0 is the frontend's.  The shards may
    come in any order. -/
structure InferPlan where
  shards : List InferShard
  ranks : (shards.map InferShard.rank).Perm ((List.range shards.length).map Nat.cast)
  platforms : (shards.map InferShard.platform).Nodup
  addresses : (shards.map InferShard.address).Nodup
  frontend : ∀ s ∈ shards, s.role = "frontend" ↔ s.rank = 0

namespace InferPlan

variable (plan : InferPlan)

/-- How many ranks the ring has, one for each shard. -/
def size : ℕ := plan.shards.length

/-- The shards in the order of their ranks. -/
def ordered : List InferShard := sortByRank plan.shards

/-- The shard of a rank, read off the order of the ranks. -/
def shard (r : ℕ) : InferShard := plan.ordered.getD r default

/-- The platform that has a rank, by the shard of that rank. -/
def platform (r : ℕ) : String := (plan.shard r).platform

/-- The rank that is sent to; the last one sends to the frontend. -/
def next (r : ℕ) : ℕ := if r + 1 = plan.size then 0 else r + 1

/-- The rank that frames come from, which is the last one for the frontend. -/
def prev (r : ℕ) : ℕ := if r = 0 then plan.size - 1 else r - 1

variable {plan}

/-- Sorting by rank neither adds a shard nor drops one. -/
theorem perm_ordered : plan.ordered.Perm plan.shards := List.perm_insertionSort _ _

/-- There are as many shards in the order of the ranks as in the plan. -/
@[simp] theorem length_ordered : plan.ordered.length = plan.size := perm_ordered.length_eq

/-- Sorting puts the ranks in their places. -/
theorem ranks_ordered : plan.ordered.map InferShard.rank = (List.range plan.size).map Nat.cast := by
  have hperm : (plan.ordered.map InferShard.rank).Perm ((List.range plan.size).map Nat.cast) :=
    (perm_ordered.map _).trans plan.ranks
  have hsorted : (plan.ordered.map InferShard.rank).Pairwise (· ≤ ·) := by
    rw [List.pairwise_map]
    exact List.pairwise_insertionSort (fun a b : InferShard => a.rank ≤ b.rank) plan.shards
  have hrange : ((List.range plan.size).map (Nat.cast : ℕ → ℤ)).Pairwise (· ≤ ·) := by
    rw [List.pairwise_map]
    exact List.pairwise_le_range.imp (fun hle => by omega)
  exact hperm.eq_of_pairwise (fun a b _ _ hab hba => le_antisymm hab hba) hsorted hrange

/-- The shard at a place of the order is that of this rank. -/
theorem getElem_ordered {r : ℕ} (hr : r < plan.size) :
    plan.ordered[r]? = some (plan.shard r) := by
  rw [shard, List.getD_eq_getElem _ _ (by simpa using hr), List.getElem?_eq_getElem]

/-- The shard of every rank is one of the sorted shards. -/
theorem mem_ordered {r : ℕ} (hr : r < plan.size) : plan.shard r ∈ plan.ordered :=
  List.mem_of_getElem? (getElem_ordered hr)

/-- Every shard of the plan is that of some rank. -/
theorem exists_shard {s : InferShard} (h : s ∈ plan.shards) :
    ∃ r < plan.size, plan.shard r = s := by
  obtain ⟨r, hr, rfl⟩ := List.getElem_of_mem (perm_ordered.mem_iff.mpr h)
  have hr' : r < plan.size := by simpa using hr
  exact ⟨r, hr', Option.some.inj ((getElem_ordered hr').symm.trans (List.getElem?_eq_getElem hr))⟩

/-- The shard of rank `r` says that its rank is `r`. -/
theorem rank_shard {r : ℕ} (hr : r < plan.size) : (plan.shard r).rank = r := by
  have hranks : (plan.ordered.map InferShard.rank)[r]? =
      ((List.range plan.size).map Nat.cast)[r]? := by rw [ranks_ordered]
  rw [List.getElem?_map, getElem_ordered hr, List.getElem?_map, List.getElem?_range hr] at hranks
  exact Option.some.inj hranks

/-- No two ranks have the same platform. -/
theorem platform_inj {r r' : ℕ} (hr : r < plan.size) (hr' : r' < plan.size)
    (h : plan.platform r = plan.platform r') : r = r' := by
  have hnodup : (plan.ordered.map InferShard.platform).Nodup :=
    (perm_ordered.map _).nodup_iff.mpr plan.platforms
  refine (List.getElem?_inj (by simpa using hr) hnodup).mp ?_
  rw [List.getElem?_map, List.getElem?_map, getElem_ordered hr, getElem_ordered hr']
  exact congrArg some h

/-- No two ranks have the same address. -/
theorem address_inj {r r' : ℕ} (hr : r < plan.size) (hr' : r' < plan.size)
    (h : (plan.shard r).address = (plan.shard r').address) : r = r' := by
  have hnodup : (plan.ordered.map InferShard.address).Nodup :=
    (perm_ordered.map _).nodup_iff.mpr plan.addresses
  refine (List.getElem?_inj (by simpa using hr) hnodup).mp ?_
  rw [List.getElem?_map, List.getElem?_map, getElem_ordered hr, getElem_ordered hr']
  exact congrArg some h

/-! The ring. -/

/-- The rank that is sent to is one of the ring. -/
theorem next_lt {r : ℕ} (hr : r < plan.size) : plan.next r < plan.size := by
  rw [next]
  split <;> omega

/-- The rank that frames come from is one of the ring. -/
theorem prev_lt {r : ℕ} (hr : r < plan.size) : plan.prev r < plan.size := by
  rw [prev]
  split <;> omega

/-- What a rank's predecessor sends to is the rank. -/
theorem next_prev {r : ℕ} (hr : r < plan.size) : plan.next (plan.prev r) = r := by
  unfold next prev
  split_ifs <;> omega

/-- The rank that a rank sends to expects its frames. -/
theorem prev_next (r : ℕ) : plan.prev (plan.next r) = r := by
  rw [next]
  split
  case isTrue hlast =>
    show plan.size - 1 = r
    omega
  case isFalse => rfl

/-! ### What a peer makes of the dictionary -/

variable (plan)

/-- Every process gets the plan in a dictionary, and the acknowledgement names its epoch. -/
def setup (outside : Outside) (epoch : String) (tokenCount : ℤ) (prompt : String) : Setup where
  outside := outside
  planMsg := shardsToPlanDict epoch plan.shards tokenCount
  joinEpoch := outside.str (orElse (.str epoch) (.str ""))
  prompt := prompt

/-- The seat of rank `r` is what the plan and the arguments grant it. -/
structure Granted (epoch : String) (tokenCount : ℤ) (r : ℕ) (seat : Seat) : Prop where
  shards : seat.shards = plan.ordered
  my : seat.my = plan.shard r
  epoch : seat.epoch = epoch
  tokenCount : seat.tokenCount = tokenCount
  bufBudget : defaultActivationBytes ≤ seat.bufBudget
  actNbytes : seat.actNbytes = defaultActivationBytes

variable {plan} {outside : Outside} {epoch prompt platform : String} {tokenCount : ℤ}

/-- The epoch of the acknowledgement is that of the plan. -/
theorem joinEpoch_setup : (plan.setup outside epoch tokenCount prompt).joinEpoch = epoch := by
  show outside.str (orElse (.str epoch) (.str "")) = epoch
  rw [orElse]
  split
  case isTrue => exact outside.str_str epoch
  case isFalse hempty =>
    have hepoch : epoch = "" := by simpa [Json.truthy] using hempty
    rw [hepoch, outside.str_str]

/-- Every budget has room for one activation of the default size. -/
theorem le_bufferBudgetBytes {estimatedGb : Option ℚ} {budget : ℤ}
    (h : bufferBudgetBytes estimatedGb = some budget) : defaultActivationBytes ≤ budget := by
  obtain ⟨gb, -, rfl⟩ := Option.map_eq_some_iff.mp h
  have hslots : (1 : ℤ) ≤ max 1 (min 8 (gb.num.tdiv gb.den)) := le_max_left _ _
  rw [defaultActivationBytes]
  omega

/-- A peer of the plan is ready for its rank, or its `estimated_gb` is not finite. -/
theorem prepare_cases (platform : String) :
    (plan.setup outside epoch tokenCount prompt).prepare platform = .gone ∨
      ∃ r < plan.size, platform = plan.platform r ∧ ∃ seat,
        plan.Granted epoch tokenCount r seat ∧
        (plan.setup outside epoch tokenCount prompt).prepare platform = .ready seat := by
  have hplan : outside.planDictToShards (shardsToPlanDict epoch plan.shards tokenCount)
      = some (epoch, tokenCount, plan.ordered) := outside.planDictToShards_shardsToPlanDict _ _ _
  have hrequested : outside.int ((shardsToPlanDict epoch plan.shards tokenCount).getD
      "activation_bytes" (.int defaultActivationBytes)) = some defaultActivationBytes :=
    outside.int_int _
  have hepoch : ¬ epoch ≠ (plan.setup outside epoch tokenCount prompt).joinEpoch := by
    rw [joinEpoch_setup]
    exact not_not.mpr rfl
  rw [Setup.prepare]
  simp only [setup] at hepoch ⊢
  rw [hplan]
  simp only [hrequested, if_neg hepoch]
  split
  case h_1 => exact .inl rfl
  case h_2 my hfind =>
    cases hbudget : bufferBudgetBytes my.estimatedGb with
    | none => exact .inl rfl
    | some bufBudget =>
      have hle := le_bufferBudgetBytes hbudget
      have hfits : activationNbytesForBudget bufBudget defaultActivationBytes
          = some defaultActivationBytes := by
        have hpos : (0 : ℤ) < defaultActivationBytes := by decide
        rw [activationNbytesForBudget, if_neg (by omega), if_neg (by omega)]
      dsimp only
      rw [hfits]
      have hmem := perm_ordered.mem_iff.mp (List.mem_of_find?_eq_some hfind)
      obtain ⟨r, hr, hshard⟩ := exists_shard hmem
      have hplatform : my.platform = platform := by
        simpa using List.find?_some hfind
      refine .inr ⟨r, hr, ?_, _, ⟨rfl, hshard.symm, rfl, rfl, hle, rfl⟩, rfl⟩
      rw [← hplatform, InferPlan.platform, hshard]

/-! ### Where a peer sends to -/

variable (plan) in
/-- Rank `r` sends to the next rank and expects frames of the one before. -/
structure Routed (r : ℕ) (route : Route) : Prop where
  dest : route.dest = plan.shard (plan.next r)
  expectedFrom : route.expectedFrom = plan.prev r
  expectedTo : route.expectedTo = r

variable {r : ℕ} {seat : Seat}

/-- The peer at rank 0 is the frontend, and no other one is. -/
theorem isFrontend_of_granted (h : plan.Granted epoch tokenCount r seat) (hr : r < plan.size) :
    seat.isFrontend = decide (r = 0) := by
  have hrole := plan.frontend _ (perm_ordered.mem_iff.mp (mem_ordered hr))
  rw [rank_shard hr] at hrole
  rw [Seat.isFrontend, h.my, rank_shard hr]
  by_cases hzero : r = 0
  · simp [hzero]
  · have hnot : (plan.shard r).role ≠ "frontend" := fun heq => hzero (by
      have hcast := hrole.mp heq
      omega)
    simp [hzero, hnot]

/-- The frontend sends to rank 1 and expects the results of the last rank. -/
theorem frontendRoute_of_granted (h : plan.Granted epoch tokenCount 0 seat)
    (two : 2 ≤ plan.size) : ∃ route, seat.frontendRoute = some route ∧ plan.Routed 0 route := by
  have hnext : plan.ordered[1]? = some (plan.shard 1) := getElem_ordered (by omega)
  have hlast : plan.ordered.getLast? = some (plan.shard (plan.size - 1)) := by
    rw [List.getLast?_eq_getElem?, length_ordered, getElem_ordered (by omega)]
  refine ⟨⟨plan.shard 1, (plan.shard (plan.size - 1)).rank, (plan.shard 0).rank⟩, ?_, ?_⟩
  · rw [Seat.frontendRoute, h.shards, h.my, hnext, hlast]
  · constructor
    · show plan.shard 1 = plan.shard (plan.next 0)
      rw [InferPlan.next, if_neg (by omega)]
    · exact rank_shard (by omega)
    · exact rank_shard (by omega)

/-- A worker sends to the rank behind it, the last one to the frontend, and expects the frames of
    the rank before it. -/
theorem workerRoute_of_granted (h : plan.Granted epoch tokenCount r seat) (hr : r < plan.size)
    (hpos : 0 < r) : ∃ route, seat.workerRoute = some route ∧ plan.Routed r route := by
  have hnodup : (plan.ordered.map InferShard.rank).Nodup := by
    rw [ranks_ordered]
    exact List.Nodup.map (fun a b hab => by simpa using hab) List.nodup_range
  have hlookup : ∀ k < plan.size, seat.byRank.lookup (k : ℤ) = some (plan.shard k) := by
    intro k hk
    rw [Seat.byRank, h.shards, ← rank_shard hk]
    exact Dictionary.lookup_file hnodup (mem_ordered hk)
  have htop : seat.byRank.keys.max? = some ((plan.size : ℤ) - 1) := by
    have hkeys : ∀ k, k ∈ seat.byRank.keys ↔ ∃ i < plan.size, (i : ℤ) = k := by
      intro k
      rw [← AList.mem_keys, Seat.byRank, h.shards, Dictionary.mem_file, ranks_ordered]
      simp
    rw [List.max?_eq_some_iff]
    refine ⟨(hkeys _).mpr ⟨plan.size - 1, by omega, by omega⟩, fun k hk => ?_⟩
    obtain ⟨i, hi, rfl⟩ := (hkeys k).mp hk
    omega
  have hdest : seat.byRank.lookup
      (if (plan.shard r).rank = (plan.size : ℤ) - 1 then 0 else (plan.shard r).rank + 1)
      = some (plan.shard (plan.next r)) := by
    rw [rank_shard hr, ← hlookup (plan.next r) (next_lt hr), InferPlan.next]
    congr 1
    split_ifs <;> omega
  refine ⟨⟨plan.shard (plan.next r), (plan.shard r).rank - 1, (plan.shard r).rank⟩, ?_, ?_⟩
  · rw [Seat.workerRoute, htop, h.my]
    simp only [hdest, Option.map_some]
  · refine ⟨rfl, ?_, rank_shard hr⟩
    show (plan.shard r).rank - 1 = _
    rw [rank_shard hr, InferPlan.prev, if_neg (by omega)]
    omega

end InferPlan

end ShareCompute.Simulation
