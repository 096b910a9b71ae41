import ShareCompute.App.RingCoordinator
import ShareCompute.Library.Tiling
import Mathlib.Algebra.Order.BigOperators.Group.List
import Mathlib.Algebra.BigOperators.Ring.List

namespace ShareCompute.App

open ShareCompute.Library

/-!
# Sharing a model out over the ring

`ModelManager.swift`: how the layers of a model are assigned to the ring devices, and how a
re-formed ring loads its shards again.  Each device but the last gets the whole layers of its
share, and the last one gets what is left.

A share is the device's memory over the known memory of the ring.  A device without a profile
counts for a gibibyte in the first and for nothing in the second, so the shares may add up to
more than the model: `shards_cover_iff` says when they do not.
-/

/-- What is known of a model before it is loaded; only the number of its layers matters here. -/
structure ModelMetadata where
  nLayers : ℤ
deriving DecidableEq

/-- The card of a model in the catalogue, with the metadata of the model. -/
structure ModelCard where
  metadata : ModelMetadata
deriving DecidableEq

/-- Which part of a model a device is to load, and with how many others it computes. -/
structure ShardMetadata where
  modelMeta : ModelMetadata
  deviceRank : ℕ
  worldSize : ℕ
  useTensorParallel : Bool
  startLayer : ℤ
  endLayer : ℤ
  nLayers : ℤ
deriving DecidableEq

/-- How a call can end early: with an error of the model manager, or in a trap. -/
inductive Failure
  | notInitialized
  | invalidRequest (detail : String)
  | loadFailed (detail : String)
  | divisionByZero
deriving DecidableEq

/-- `/` of integers: it truncates, and traps on zero. -/
def divide (dividend divisor : ℤ) : Except Failure ℤ :=
  if divisor = 0 then .error .divisionByZero else .ok (dividend.tdiv divisor)

namespace ModelManager

/-- `ringDevices.sorted { $0.rank < $1.rank }`: the devices of the ring in the order of their
    ranks. -/
def byRank (devices : List RingCoordinator.RingDevice) : List RingCoordinator.RingDevice :=
  devices.insertionSort (fun a b => a.rank ≤ b.rank)

/-- What a device counts for: the memory of its profile, or 1 GiB if it has none. -/
def deviceMemory (device : RingCoordinator.RingDevice) : ℤ :=
  match device.device.hardwareProfile with
  | some profile => profile.recommendedUsageRAM
  | none => 1024 * 1024 * 1024

/-- The loop of `assignShardMetadata`: the shards of the devices that are left. -/
def assignShards (modelCard : ModelCard) (useTensorParallel : Bool) (size : ℕ)
    (totalMemory : ℤ) : ℤ → List RingCoordinator.RingDevice → Except Failure (List ShardMetadata)
  | _, [] => .ok []
  | assignedLayers, device :: devices => do
      let shardLayers ← divide (modelCard.metadata.nLayers * deviceMemory device) totalMemory
      let metas ← assignShards modelCard useTensorParallel size totalMemory
        (assignedLayers + shardLayers) devices
      return { modelMeta := modelCard.metadata
               deviceRank := device.rank
               worldSize := size
               useTensorParallel := useTensorParallel
               startLayer := assignedLayers
               endLayer :=
                 if (device.rank : ℤ) < size - 1 then assignedLayers + shardLayers
                 else modelCard.metadata.nLayers
               nLayers := modelCard.metadata.nLayers } :: metas

/-- Assigns shards to the ring devices by their part of the memory, sorted by rank. -/
def assignShardMetadata (coordinator : Option RingCoordinator) (useTensorParallel : Bool)
    (modelCard : ModelCard) : Except Failure (List ShardMetadata) :=
  match coordinator with
  | none => .error .notInitialized
  | some coordinator =>
      let devices := byRank coordinator.ringDevices
      assignShards modelCard useTensorParallel devices.length coordinator.usableRAM 0 devices

end ModelManager

/-- The stored properties of the manager that a re-formation reads or writes. -/
structure ModelManager where
  /-- what to load again after a re-formation -/
  cardPendingReload : Option ModelCard
  currentModelCard : Option ModelCard
  /-- the shard that is loaded -/
  currentModel : Option ShardMetadata

namespace ModelManager

/-- Before a re-formation the loaded shard is given up, and its card is remembered to load it
    again. -/
def releaseModelForReformation (self : ModelManager) : ModelManager :=
  { self with cardPendingReload := self.currentModelCard, currentModel := none }

/-- Loads onto the new ring what the old one had, if anything.  `loadModelLocally` may fail. -/
def reloadAfterReformation (self : ModelManager) (coordinator : Option RingCoordinator)
    (useTensorParallel : Bool)
    (loadModelLocally : ModelCard → ShardMetadata → Except Failure Unit) :
    Except Failure (ModelManager × Bool) :=
  match self.cardPendingReload with
  | none => .ok (self, false)
  | some card =>
      match coordinator with
      | none => .error .notInitialized
      | some coordinator => do
          let metas ← assignShardMetadata (some coordinator) useTensorParallel card
          let rank := coordinator.myRank
          match metas[rank]? with
          | none =>
              .error (.invalidRequest ("rank " ++ toString rank ++ " has no shard in a ring of " ++
                toString metas.length ++ " after re-formation"))
          | some shardMeta => do
              loadModelLocally card shardMeta
              return ({ cardPendingReload := none
                        currentModelCard := some card
                        currentModel := some shardMeta }, true)

/-! ### Shards that cover the model -/

/-- The shards, in the order of their ranks, lie within the model, meet each other, and hold
    each layer once. -/
structure CoversModel (nLayers : ℤ) (metas : List ShardMetadata) : Prop where
  ranked : metas.map ShardMetadata.deviceRank = List.range metas.length
  bounded : ∀ shard ∈ metas,
    0 ≤ shard.startLayer ∧ shard.startLayer ≤ shard.endLayer ∧ shard.endLayer ≤ nLayers
  contiguous : metas.IsChain (fun a b => a.endLayer = b.startLayer)
  each : ∀ layer : ℤ, 0 ≤ layer → layer < nLayers → ∃! rank : ℕ, ∃ shard,
    metas[rank]? = some shard ∧ shard.startLayer ≤ layer ∧ layer < shard.endLayer

/-- The whole layers in the share of a device. -/
def wholeLayers (coordinator : RingCoordinator) (nLayers : ℤ)
    (device : RingCoordinator.RingDevice) : ℤ :=
  nLayers * deviceMemory device / coordinator.usableRAM

/-- The devices before the last rank have shares of no more whole layers than the model has. -/
def SharesFit (coordinator : RingCoordinator) (nLayers : ℤ) : Prop :=
  ((byRank coordinator.ringDevices).dropLast.map (wholeLayers coordinator nLayers)).sum
    ≤ nLayers

/-- A ring with ranks from zero up, whose known memory figures are positive, and in which this
    device has a profile. -/
structure Measured (coordinator : RingCoordinator) : Prop where
  ranks : (coordinator.ringDevices.map RingCoordinator.RingDevice.rank).Perm
    (List.range coordinator.ringDevices.length)
  positive : ∀ device ∈ coordinator.ringDevices, ∀ profile ∈ device.device.hardwareProfile,
    0 < profile.recommendedUsageRAM
  profiled : ∃ device ∈ coordinator.ringDevices, device.id = coordinator.localDeviceID ∧
    device.device.hardwareProfile.isSome = true

/-! ### The loop -/

variable {coordinator : RingCoordinator} {modelCard : ModelCard} {useTensorParallel : Bool}
  {devices : List RingCoordinator.RingDevice} {totalMemory : ℤ}

/-- The range of layers of a shard, from the first one up to the one behind its last. -/
def range (shard : ShardMetadata) : ℤ × ℤ := (shard.startLayer, shard.endLayer)

/-- Division of numbers that are not negative rounds down, as Swift's does for them. -/
theorem divide_eq {dividend divisor : ℤ} (hdividend : 0 ≤ dividend) (hdivisor : 0 < divisor) :
    divide dividend divisor = .ok (dividend / divisor) := by
  rw [divide, if_neg hdivisor.ne', Int.tdiv_eq_ediv_of_nonneg hdividend]

/-- **The loop** over the devices of the ranks from `k` up to the last one.  The shards lie end
    to end from `assignedLayers` on if the shares before the last leave room, and in any case
    the last shard begins after them and ends with the model. -/
theorem assignShards_spans {size k : ℕ} (htotal : 0 < totalMemory)
    (hlayers : 0 ≤ modelCard.metadata.nLayers) (assignedLayers : ℤ)
    (hmemory : ∀ device ∈ devices, 0 ≤ deviceMemory device)
    (hranks : devices.map RingCoordinator.RingDevice.rank = List.range' k devices.length)
    (hsize : k + devices.length = size) (hne : devices ≠ []) :
    let before := assignedLayers + (devices.dropLast.map (fun device =>
      modelCard.metadata.nLayers * deviceMemory device / totalMemory)).sum
    ∃ metas, assignShards modelCard useTensorParallel size totalMemory assignedLayers devices
        = .ok metas ∧
      metas.map ShardMetadata.deviceRank = List.range' k devices.length ∧
      (∃ last ∈ metas, last.startLayer = before ∧ last.endLayer = modelCard.metadata.nLayers) ∧
      (before ≤ modelCard.metadata.nLayers →
        Spans assignedLayers modelCard.metadata.nLayers (metas.map range)) := by
  induction devices generalizing assignedLayers k with
  | nil => exact absurd rfl hne
  | cons device devices ih =>
    have hshare : 0 ≤ modelCard.metadata.nLayers * deviceMemory device :=
      mul_nonneg hlayers (hmemory device (List.mem_cons_self ..))
    rw [List.map_cons, List.length_cons, List.range'_succ] at hranks
    obtain ⟨hrank, hranks⟩ := List.cons.inj hranks
    rw [List.length_cons] at hsize
    rw [assignShards, divide_eq hshare htotal]
    cases devices with
    | nil =>
      -- the last device takes what is left
      have hlast : ¬ (device.rank : ℤ) < size - 1 := by
        simp only [List.length_nil] at hsize
        omega
      refine ⟨_, rfl, ?_, ⟨_, List.mem_singleton_self _, ?_, ?_⟩, ?_⟩
      · simp [hrank]
      · simp
      · simp only [hlast, if_false]
      · intro hroom
        simp only [List.map_singleton, range, hlast, if_false]
        exact ⟨rfl, by simpa using hroom, rfl⟩
    | cons second devices =>
      have hbefore : (device.rank : ℤ) < size - 1 := by
        simp only [List.length_cons] at hsize
        omega
      obtain ⟨metas, hmetas, hmetaRanks, ⟨last, hmem, hstart, hstop⟩, hspans⟩ :=
        ih (assignedLayers + modelCard.metadata.nLayers * deviceMemory device / totalMemory)
          (fun d hd => hmemory d (List.mem_cons_of_mem _ hd)) hranks (by omega) (by simp)
      rw [List.dropLast_cons_cons, List.map_cons, List.sum_cons, ← add_assoc]
      refine ⟨{ modelMeta := modelCard.metadata
                deviceRank := device.rank
                worldSize := size
                useTensorParallel := useTensorParallel
                startLayer := assignedLayers
                endLayer :=
                  if (device.rank : ℤ) < size - 1 then
                    assignedLayers + modelCard.metadata.nLayers * deviceMemory device / totalMemory
                  else modelCard.metadata.nLayers
                nLayers := modelCard.metadata.nLayers } :: metas, ?_, ?_, ?_, ?_⟩
      · show Except.bind (Except.ok _) _ = _
        simp only [Except.bind, hmetas]
        rfl
      · simp only [List.map_cons, hmetaRanks, hrank, List.length_cons, List.range'_succ]
      · exact ⟨last, List.mem_cons_of_mem _ hmem, hstart, hstop⟩
      · intro hroom
        simp only [List.map_cons, range, hbefore, if_true]
        refine ⟨rfl, ?_, hspans hroom⟩
        have hnonneg := Int.ediv_nonneg hshare htotal.le
        omega

/-! ### The shards of a ring -/

/-- Ordering the devices by rank neither adds one nor drops one. -/
theorem perm_byRank (devices : List RingCoordinator.RingDevice) : (byRank devices).Perm devices :=
  List.perm_insertionSort _ _

/-- Sorted by rank, the devices stand at their ranks. -/
theorem map_rank_byRank
    (h : (devices.map RingCoordinator.RingDevice.rank).Perm (List.range devices.length)) :
    (byRank devices).map RingCoordinator.RingDevice.rank = List.range devices.length := by
  have hsorted : ((byRank devices).map RingCoordinator.RingDevice.rank).Pairwise (· ≤ ·) := by
    rw [List.pairwise_map]
    exact List.pairwise_insertionSort
      (fun a b : RingCoordinator.RingDevice => a.rank ≤ b.rank) devices
  have hperm := ((perm_byRank devices).map RingCoordinator.RingDevice.rank).trans h
  exact hperm.eq_of_pairwise' hsorted List.pairwise_le_range

/-- The known memory of a measured ring is positive: this device's counts. -/
theorem Measured.usableRAM_pos (h : Measured coordinator) : 0 < coordinator.usableRAM := by
  obtain ⟨device, hdevice, -, hsome⟩ := h.profiled
  obtain ⟨profile, hprofile⟩ := Option.isSome_iff_exists.mp hsome
  apply List.sum_pos
  · intro memory hmemory
    obtain ⟨other, hother, hmap⟩ := List.mem_filterMap.mp hmemory
    obtain ⟨known, hknown, rfl⟩ := Option.map_eq_some_iff.mp hmap
    exact h.positive other hother known hknown
  · apply List.ne_nil_of_mem
    exact List.mem_filterMap.mpr ⟨device, hdevice, by rw [hprofile, Option.map_some]⟩

/-- In a ring whose profiles were measured no device has a negative amount of memory. -/
theorem Measured.deviceMemory_nonneg (h : Measured coordinator)
    {device : RingCoordinator.RingDevice} (hdevice : device ∈ coordinator.ringDevices) :
    0 ≤ deviceMemory device := by
  unfold deviceMemory
  split
  · next profile hprofile => exact (h.positive device hdevice profile hprofile).le
  · norm_num

/-- What the assignment returns for a measured ring. -/
theorem assignShardMetadata_spans (h : Measured coordinator)
    (hlayers : (coordinator.ringDevices.length : ℤ) ≤ modelCard.metadata.nLayers) :
    let before := ((byRank coordinator.ringDevices).dropLast.map
      (wholeLayers coordinator modelCard.metadata.nLayers)).sum
    ∃ metas, assignShardMetadata (some coordinator) useTensorParallel modelCard = .ok metas ∧
      metas.map ShardMetadata.deviceRank = List.range metas.length ∧
      (∃ last ∈ metas, last.startLayer = before ∧ last.endLayer = modelCard.metadata.nLayers) ∧
      (before ≤ modelCard.metadata.nLayers →
        Spans 0 modelCard.metadata.nLayers (metas.map range)) := by
  have hperm := perm_byRank coordinator.ringDevices
  have hne : byRank coordinator.ringDevices ≠ [] := by
    obtain ⟨device, hdevice, -⟩ := h.profiled
    exact List.ne_nil_of_mem (hperm.mem_iff.mpr hdevice)
  have hranks : (byRank coordinator.ringDevices).map RingCoordinator.RingDevice.rank
      = List.range' 0 (byRank coordinator.ringDevices).length := by
    rw [map_rank_byRank h.ranks, hperm.length_eq, List.range_eq_range']
  obtain ⟨metas, hmetas, hmetaRanks, hlast, hspans⟩ :=
    @assignShards_spans modelCard useTensorParallel (byRank coordinator.ringDevices)
      coordinator.usableRAM (byRank coordinator.ringDevices).length 0 h.usableRAM_pos
      (by omega) 0 (fun device hdevice => h.deviceMemory_nonneg (hperm.mem_iff.mp hdevice))
      hranks (zero_add _) hne
  rw [zero_add] at hlast hspans
  refine ⟨metas, hmetas, ?_, hlast, hspans⟩
  have hlength : metas.length = (byRank coordinator.ringDevices).length := by
    rw [← List.length_map ShardMetadata.deviceRank, hmetaRanks, List.length_range']
  rw [hmetaRanks, hlength, List.range_eq_range']

/-- Shards that lie end to end cover the model. -/
theorem CoversModel.of_spans {nLayers : ℤ} {metas : List ShardMetadata}
    (hranked : metas.map ShardMetadata.deviceRank = List.range metas.length)
    (h : Spans 0 nLayers (metas.map range)) : CoversModel nLayers metas := by
  refine ⟨hranked, ?_, ?_, ?_⟩
  · intro shard hshard
    exact h.bounds_of_mem (List.mem_map_of_mem hshard)
  · have hchain := h.isChain
    rwa [List.isChain_map] at hchain
  · intro layer hnonneg hlt
    obtain ⟨rank, ⟨bounds, hbounds, hin⟩, hunique⟩ := h.existsUnique ⟨hnonneg, hlt⟩
    rw [List.getElem?_map] at hbounds
    obtain ⟨shard, hshard, rfl⟩ := Option.map_eq_some_iff.mp hbounds
    refine ⟨rank, ⟨shard, hshard, hin⟩, ?_⟩
    rintro other ⟨shard', hshard', hin'⟩
    exact hunique other ⟨range shard', by rw [List.getElem?_map, hshard', Option.map_some], hin'⟩

/-- **The shards cover the model** exactly if the shares before the last rank fit into it. -/
theorem shards_cover_iff (coordinator : RingCoordinator) (useTensorParallel : Bool)
    (modelCard : ModelCard) (h : Measured coordinator)
    (hlayers : (coordinator.ringDevices.length : ℤ) ≤ modelCard.metadata.nLayers) :
    (∃ metas, assignShardMetadata (some coordinator) useTensorParallel modelCard = .ok metas ∧
        CoversModel modelCard.metadata.nLayers metas) ↔
      SharesFit coordinator modelCard.metadata.nLayers := by
  obtain ⟨metas, hmetas, hranked, ⟨last, hlast, hstart, hstop⟩, hspans⟩ :=
    @assignShardMetadata_spans coordinator modelCard useTensorParallel h hlayers
  constructor
  · rintro ⟨metas', hmetas', hcovers⟩
    obtain rfl := Except.ok.inj (hmetas.symm.trans hmetas')
    have hordered := (hcovers.bounded last hlast).2.1
    rwa [hstart, hstop] at hordered
  · intro hfit
    exact ⟨metas, hmetas, .of_spans hranked (hspans hfit)⟩

/-- A mac and a phone that has told its memory in the election the mac won. -/
def profiledRing : RingCoordinator :=
  (((RingCoordinator.init "InferRing-mac" ⟨16, 12, .mac⟩).updatePeers
    [⟨"InferRing-phone", "10.0.0.2", ⟨"en0", .wifi⟩⟩]).processElectionMessage
      ⟨.election, "InferRing-phone", ⟨8, 4, .iPhone⟩⟩).processElectionMessage
        ⟨.coordinator, "InferRing-mac", ⟨16, 12, .mac⟩⟩

/-- For the ring of profiled devices the shards cover the model exactly if the shares fit it. -/
theorem shards_cover_profiledRing :
    (∃ metas, assignShardMetadata (some profiledRing) false ⟨⟨32⟩⟩ = .ok metas ∧
        CoversModel 32 metas) ↔ SharesFit profiledRing 32 :=
  shards_cover_iff profiledRing false ⟨⟨32⟩⟩
    ⟨by decide +kernel, by decide +kernel, by decide +kernel⟩ (by decide +kernel)

/-- A mac of one gibibyte, with a phone and a tablet that have not told their memory. -/
def unprofiledRing : RingCoordinator :=
  ((RingCoordinator.init "InferRing-mac" ⟨1024 * 1024 * 1024, 1024 * 1024 * 1024, .mac⟩).updatePeers
    [⟨"InferRing-phone", "10.0.0.2", ⟨"en0", .wifi⟩⟩,
     ⟨"InferRing-tablet", "10.0.0.3", ⟨"en0", .wifi⟩⟩]).processElectionMessage
      ⟨.coordinator, "InferRing-mac", ⟨1024 * 1024 * 1024, 1024 * 1024 * 1024, .mac⟩⟩

/-- The phone gets the layers from `3` to `6` of a model of three, and the tablet those from `6`
    to `3`. -/
theorem unprofiled_overshoot :
    ¬ ∀ (coordinator : RingCoordinator) (useTensorParallel : Bool) (modelCard : ModelCard),
      Measured coordinator →
      (coordinator.ringDevices.length : ℤ) ≤ modelCard.metadata.nLayers →
      ∃ metas, assignShardMetadata (some coordinator) useTensorParallel modelCard = .ok metas ∧
        CoversModel modelCard.metadata.nLayers metas := by
  intro h
  obtain ⟨metas, hmetas, hcovers⟩ := h unprofiledRing false ⟨⟨3⟩⟩
    ⟨by decide +kernel, by decide +kernel, by decide +kernel⟩ (by decide +kernel)
  have hranges : (assignShardMetadata (some unprofiledRing) false ⟨⟨3⟩⟩).toOption.map
      (fun metas => metas.map range) = some [(0, 3), (3, 6), (6, 3)] := by decide +kernel
  rw [hmetas] at hranges
  have hshards : metas.map range = [(0, 3), (3, 6), (6, 3)] := Option.some.inj hranges
  have htablet : ((6, 3) : ℤ × ℤ) ∈ metas.map range := by
    rw [hshards]
    simp
  obtain ⟨shard, hshard, heq⟩ := List.mem_map.mp htablet
  obtain ⟨hstart, hstop⟩ := Prod.mk.inj heq
  have hordered := (hcovers.bounded shard hshard).2.1
  omega

/-! ### Where the shares fit -/

/-- What a device adds to the known memory, if anything. -/
def knownMemory (device : RingCoordinator.RingDevice) : Option ℤ :=
  device.device.hardwareProfile.map HardwareProfile.recommendedUsageRAM

/-- Devices with profiles count as much in their shares as in the known memory. -/
theorem sum_deviceMemory_of_profiles (ds : List RingCoordinator.RingDevice)
    (h : ∀ device ∈ ds, device.device.hardwareProfile.isSome = true) :
    (ds.map deviceMemory).sum = (ds.filterMap knownMemory).sum := by
  induction ds with
  | nil => rfl
  | cons device ds ih =>
    obtain ⟨profile, hprofile⟩ := Option.isSome_iff_exists.mp (h device (List.mem_cons_self ..))
    have hdevice : knownMemory device = some (deviceMemory device) := by
      simp only [knownMemory, deviceMemory, hprofile, Option.map_some]
    rw [List.map_cons, List.sum_cons, List.filterMap_cons_some hdevice, List.sum_cons,
      ih fun d hd => h d (List.mem_cons_of_mem _ hd)]

/-- All devices but the last one have no more than the known memory. -/
theorem sum_knownMemory_dropLast_le (h : Measured coordinator) :
    ((byRank coordinator.ringDevices).dropLast.filterMap knownMemory).sum
      ≤ coordinator.usableRAM := by
  have hperm := (perm_byRank coordinator.ringDevices).filterMap knownMemory
  have hsublist := (List.dropLast_sublist (byRank coordinator.ringDevices)).filterMap knownMemory
  have hnonneg : ∀ memory ∈ (byRank coordinator.ringDevices).filterMap knownMemory,
      0 ≤ memory := by
    intro memory hmem
    obtain ⟨device, hdevice, hmap⟩ := List.mem_filterMap.mp hmem
    obtain ⟨profile, hprofile, rfl⟩ := Option.map_eq_some_iff.mp hmap
    exact (h.positive device ((perm_byRank _).mem_iff.mp hdevice) profile hprofile).le
  exact (hsublist.sum_le_sum hnonneg).trans_eq hperm.sum_eq

/-- If every device before the last rank has a profile, the shares fit. -/
theorem sharesFit_of_profiles (h : Measured coordinator) {nLayers : ℤ} (hlayers : 0 ≤ nLayers)
    (hprofiles : ∀ device ∈ (byRank coordinator.ringDevices).dropLast,
      device.device.hardwareProfile.isSome = true) : SharesFit coordinator nLayers := by
  have hpos := h.usableRAM_pos
  have hbefore : ((byRank coordinator.ringDevices).dropLast.map deviceMemory).sum
      ≤ coordinator.usableRAM :=
    (sum_deviceMemory_of_profiles _ hprofiles).trans_le (sum_knownMemory_dropLast_le h)
  have hscaled : coordinator.usableRAM * ((byRank coordinator.ringDevices).dropLast.map
      (wholeLayers coordinator nLayers)).sum ≤ coordinator.usableRAM * nLayers := by
    calc coordinator.usableRAM * ((byRank coordinator.ringDevices).dropLast.map
          (wholeLayers coordinator nLayers)).sum
        = ((byRank coordinator.ringDevices).dropLast.map (fun device =>
            coordinator.usableRAM * wholeLayers coordinator nLayers device)).sum :=
          (List.sum_map_mul_left ..).symm
      _ ≤ ((byRank coordinator.ringDevices).dropLast.map (fun device =>
            nLayers * deviceMemory device)).sum :=
          List.sum_le_sum fun device _ => Int.mul_ediv_self_le hpos.ne'
      _ = nLayers * ((byRank coordinator.ringDevices).dropLast.map deviceMemory).sum :=
          List.sum_map_mul_left ..
      _ ≤ nLayers * coordinator.usableRAM := mul_le_mul_of_nonneg_left hbefore hlayers
      _ = coordinator.usableRAM * nLayers := mul_comm ..
  exact le_of_mul_le_mul_left hscaled hpos

/-- The ranks of a ring that the coordinator has built are its places. -/
theorem perm_ranks_of_wellFormed {bonjourName : String}
    (h : RingCoordinator.WellFormed bonjourName coordinator) :
    (coordinator.ringDevices.map RingCoordinator.RingDevice.rank).Perm
      (List.range coordinator.ringDevices.length) := by
  unfold RingCoordinator.ringDevices
  cases hring : coordinator.currentRing with
  | none => exact .refl _
  | some ring => exact (h.ring ring hring).ranked ▸ .refl _

/-- A reload takes the shard of this device's rank. -/
theorem reload_takes_rank {self reloaded : ModelManager}
    {loadModelLocally : ModelCard → ShardMetadata → Except Failure Unit} {card : ModelCard}
    (hcard : self.cardPendingReload = some card)
    (h : self.reloadAfterReformation (some coordinator) useTensorParallel loadModelLocally
      = .ok (reloaded, true)) :
    ∃ metas shardMeta, assignShardMetadata (some coordinator) useTensorParallel card = .ok metas ∧
      metas[coordinator.myRank]? = some shardMeta ∧ reloaded.currentModel = some shardMeta := by
  unfold reloadAfterReformation at h
  simp only [hcard] at h
  cases hmetas : assignShardMetadata (some coordinator) useTensorParallel card with
  | error failure => simp [hmetas, bind, Except.bind] at h
  | ok metas =>
    simp only [hmetas, bind, Except.bind] at h
    cases hshard : metas[coordinator.myRank]? with
    | none => simp [hshard] at h
    | some shardMeta =>
      simp only [hshard] at h
      cases hload : loadModelLocally card shardMeta with
      | error failure => simp [hload] at h
      | ok _ =>
        simp only [hload] at h
        obtain ⟨rfl, -⟩ := Prod.mk.inj (Except.ok.inj h)
        exact ⟨metas, shardMeta, rfl, hshard, rfl⟩

end ModelManager

end ShareCompute.App
