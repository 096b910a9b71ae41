import ShareCompute.App.AutoParallel
import ShareCompute.Library.StageChain

namespace ShareCompute.App

open ShareCompute.Library
open ShareCompute.Library.Ranks (Op Rank)

/-!
# What a split model computes

The ranks of a ring call the same model with the same input, each with its own range of the
layers.  A rank is a stage of a `StageChain`, but a rank with a single layer never receives: the
wrapper of the last layer has taken the place of the first one's.  It works on the input
instead, what the ranks before it have made is lost, and the rank before it has sent in vain.

* `LayerSplit` — a contiguous split of the layers, no range of which is empty.
* `ranks_eq_start` — the ranks that `pipelineAutoParallel` makes are the chain's.
* `sameOutput_iff` — the runs end, with the last stage's output on every rank.
* `pipeline_split_preserves_iff` — when the output is that of all layers in order.
-/

variable {ρ μ κ : Type}

/-- The model that has not been split. -/
def wholeModel (kind : ModelKind) (layers : List (TransformerLayer ρ μ κ)) :
    LanguageModel ρ μ κ where
  kind := kind
  layers := layers.map .transformerLayer
  shardOffset := 0

/-- All layers, the first of which is at `position`, in order on one device. -/
def applyLayers (input : ModelInput ρ μ κ) :
    ℕ → List (TransformerLayer ρ μ κ) → MLXArray ρ → MLXArray ρ
  | _, [], x => x
  | position, layer :: layers, x =>
      applyLayers input (position + 1) layers
        (layer.callAsFunction x (input.mask position) (input.cache position))

/-- A contiguous split of `layerCount` layers among `n` ranks. -/
structure LayerSplit (layerCount : ℕ) where
  n : ℕ
  /-- where the range of a rank begins, and that of the rank before ends -/
  cut : ℕ → ℕ
  pos : 0 < n
  cut_zero : cut 0 = 0
  cut_n : cut n = layerCount
  cut_lt : ∀ r < n, cut r < cut (r + 1)

namespace LayerSplit

variable {layerCount : ℕ} (split : LayerSplit layerCount)

/-- The metadata of rank `r`: its range of the layers, without tensor parallelism. -/
def shardMeta (r : ℕ) : ShardMetadata where
  modelMeta := { nLayers := layerCount }
  deviceRank := r
  worldSize := split.n
  useTensorParallel := false
  startLayer := split.cut r
  endLayer := split.cut (r + 1)
  nLayers := layerCount

/-- Every rank after the first has at least two layers. -/
def NoSingleLayer : Prop := ∀ r, 0 < r → r < split.n → split.cut r + 2 ≤ split.cut (r + 1)

variable (asType : DType → ρ → ρ) (kind : ModelKind) (layers : List (TransformerLayer ρ μ κ))
  (input : ModelInput ρ μ κ)

/-- The ranks of the ring, each about to call its part of the model. -/
def ranks (r : ℕ) : Rank (MLXArray ρ) :=
  .start
    (if r < split.n then
      (pipelineAutoParallel (wholeModel kind layers) (split.shardMeta r)).callAsFunction asType
        input
    else [])
    input.x

/-- The ranks come to an end in every run, and then each has what one device makes. -/
structure SameOutput : Prop where
  ends : ∃ bound, ∀ run after,
    (Ranks.parties (MLXArray ρ) split.n).Run (split.ranks asType kind layers input) run after →
      run.length ≤ bound
  output : ∀ run after,
    (Ranks.parties (MLXArray ρ) split.n).Run (split.ranks asType kind layers input) run after →
      (Ranks.parties (MLXArray ρ) split.n).Stuck after →
        ∀ r < split.n, (after r).todo = [] ∧
          (after r).value = applyLayers input 0 layers input.x

/-- What a rank has received from another is at any time what that one has sent to it first,
    and in the end all that it has sent. -/
structure Matched : Prop where
  received_sent : ∀ run after,
    (Ranks.parties (MLXArray ρ) split.n).Run (split.ranks asType kind layers input) run after →
      ∀ i j, (after j).received i <+: (after i).sent j
  sent_received : ∀ run after,
    (Ranks.parties (MLXArray ρ) split.n).Run (split.ranks asType kind layers input) run after →
      (Ranks.parties (MLXArray ρ) split.n).Stuck after →
        ∀ i j, (after j).received i = (after i).sent j

end LayerSplit

/-! ### The calls of a range of layers -/

section calls

variable {asType : DType → ρ → ρ} {input : ModelInput ρ μ κ} {position : ℕ}

/-- What the layers do, one after the other. -/
def layerWork (input : ModelInput ρ μ κ) :
    ℕ → List (TransformerLayer ρ μ κ) → List (MLXArray ρ → MLXArray ρ)
  | _, [] => []
  | position, layer :: layers =>
      (fun x => layer.callAsFunction x (input.mask position) (input.cache position)) ::
        layerWork input (position + 1) layers

/-- Calling the layers one by one is to fold their work over the rows. -/
theorem foldl_layerWork (layers : List (TransformerLayer ρ μ κ)) (x : MLXArray ρ) :
    (layerWork input position layers).foldl (fun x f => f x) x =
      applyLayers input position layers x := by
  induction layers generalizing position x with
  | nil => rfl
  | cons layer layers ih => exact ih _

/-- No layer changes how many rows there are. -/
theorem length_applyLayers (layers : List (TransformerLayer ρ μ κ)) (x : MLXArray ρ) :
    (applyLayers input position layers x).length = x.length := by
  induction layers generalizing position x with
  | nil => rfl
  | cons layer layers ih => rw [applyLayers, ih, layer.dim_callAsFunction]

/-- Layers behind each other: the second part goes on at its own positions with what the first has
    made. -/
theorem applyLayers_append (layers layers' : List (TransformerLayer ρ μ κ)) (x : MLXArray ρ) :
    applyLayers input position (layers ++ layers') x =
      applyLayers input (position + layers.length) layers'
        (applyLayers input position layers x) := by
  induction layers generalizing position x with
  | nil => rfl
  | cons layer layers ih =>
    rw [List.cons_append, applyLayers, ih, applyLayers, List.length_cons]
    congr 1
    omega

/-- The work of layers behind each other is the work of the one part and then of the other. -/
theorem layerWork_append (layers layers' : List (TransformerLayer ρ μ κ)) :
    layerWork input position (layers ++ layers') =
      layerWork input position layers ++ layerWork input (position + layers.length) layers' := by
  induction layers generalizing position with
  | nil => rfl
  | cons layer layers ih =>
    rw [List.cons_append, layerWork, ih, layerWork, List.length_cons, List.cons_append,
      show position + 1 + layers.length = position + (layers.length + 1) by omega]

/-- The calls of layers behind each other are the calls of the one part and then of the other. -/
theorem callLayers_append (layers layers' : List (Layer ρ μ κ)) :
    callLayers asType input position (layers ++ layers') =
      callLayers asType input position layers ++
        callLayers asType input (position + layers.length) layers' := by
  induction layers generalizing position with
  | nil => rfl
  | cons layer layers ih =>
    rw [List.cons_append, callLayers, ih, callLayers, List.length_cons, List.append_assoc,
      show position + 1 + layers.length = position + (layers.length + 1) by omega]

/-- Layers that are not wrapped neither receive nor send, so their calls are work only. -/
theorem callLayers_map (layers : List (TransformerLayer ρ μ κ)) :
    callLayers asType input position (layers.map .transformerLayer) =
      (layerWork input position layers).map .compute := by
  induction layers generalizing position with
  | nil => rfl
  | cons layer layers ih =>
    rw [List.map_cons, callLayers, ih, layerWork, List.map_cons]
    rfl

end calls

/-! ### The wrapped layers of a rank -/

/-- The layers from `start` on, below `stop`. -/
def layerRange (layers : List (TransformerLayer ρ μ κ)) (start stop : ℕ) :
    List (TransformerLayer ρ μ κ) := (layers.take stop).drop start

/-- The type that a wrapper casts to before it sends: only `gptOSS` asks for one. -/
def forceDType (kind : ModelKind) : Option DType :=
  if kind = .gptOSS then some .bfloat16 else none

section wrapping

variable {asType : DType → ρ → ρ} {kind : ModelKind} {layers : List (TransformerLayer ρ μ κ)}
  {input : ModelInput ρ μ κ} {start stop : ℕ} {modelShardMeta : ShardMetadata}

/-- A range within the model has as many layers as it says. -/
theorem length_layerRange (hstop : stop ≤ layers.length) :
    (layerRange layers start stop).length = stop - start := by
  rw [layerRange, List.length_drop, List.length_take, Nat.min_eq_left hstop]

/-- What `pipelineAutoParallel` makes of a range: the first layer receives, the last one sends, and
    a single layer only sends. -/
theorem pipelineAutoParallel_eq (hkind : kind ≠ .other) (hlt : start < stop)
    (hle : stop ≤ layers.length) (hstart : modelShardMeta.startLayer = start)
    (hstop : modelShardMeta.endLayer = stop) {first last : TransformerLayer ρ μ κ}
    (hfirst : (layerRange layers start stop).head? = some first)
    (hlast : (layerRange layers start stop).getLast? = some last) :
    pipelineAutoParallel (wholeModel kind layers) modelShardMeta =
      { kind := kind
        layers := (((layerRange layers start stop).map .transformerLayer).set 0
          (.pipelineFirstLayer (.transformerLayer first) modelShardMeta.deviceRank)).set
            ((layerRange layers start stop).length - 1)
            (.pipelineLastLayer (.transformerLayer last) modelShardMeta.deviceRank
              modelShardMeta.worldSize (forceDType kind))
        shardOffset := start } := by
  have hlayers : getLayers (wholeModel kind layers) = layers.map .transformerLayer := if_neg hkind
  have hnonempty : ¬(layers.map (Layer.transformerLayer (ρ := ρ))).isEmpty = true := by
    rw [List.isEmpty_iff_length_eq_zero, List.length_map]
    omega
  have hsafeStart : max 0 (min modelShardMeta.startLayer (layers.length : ℤ)) = start := by
    omega
  have hsafeEnd : max (start : ℤ) (min modelShardMeta.endLayer (layers.length : ℤ)) = stop := by
    omega
  have hsubset : ((layers.map (Layer.transformerLayer (ρ := ρ))).take stop).drop start =
      (layerRange layers start stop).map .transformerLayer := by
    rw [layerRange, List.map_drop, List.map_take]
  unfold pipelineAutoParallel
  simp only [hlayers, if_neg hnonempty, List.length_map, hsafeStart, hsafeEnd, Int.toNat_natCast,
    hsubset, List.head?_map, List.getLast?_map, hfirst, hlast, Option.map_some]
  exact if_neg hkind

/-- What a rank does: it receives if it is not the first one and has more than one layer. -/
theorem callAsFunction_eq (hkind : kind ≠ .other) (hlt : start < stop)
    (hle : stop ≤ layers.length) (hstart : modelShardMeta.startLayer = start)
    (hstop : modelShardMeta.endLayer = stop) :
    (pipelineAutoParallel (wholeModel kind layers) modelShardMeta).callAsFunction asType input =
      (if 0 < modelShardMeta.deviceRank ∧ start + 2 ≤ stop then
        [.recv (modelShardMeta.deviceRank - 1)] else []) ++
      ((layerWork input start (layerRange layers start stop) ++
          (forceDType kind).toList.map (fun dtype => List.map (asType dtype))).map .compute ++
        ((if (modelShardMeta.deviceRank : ℤ) ≠ modelShardMeta.worldSize - 1 then
            [.send ((modelShardMeta.deviceRank + 1) % modelShardMeta.worldSize)] else []) ++
          [.contribute, .collect lastRows])) := by
  have hlength : (layerRange layers start stop).length = stop - start := length_layerRange hle
  -- the range has a last layer, which the second assignment wraps in any case
  obtain ⟨mid, last, hrange⟩ : ∃ mid last, layerRange layers start stop = mid ++ [last] := by
    apply (List.eq_nil_or_concat' _).resolve_left
    intro hnil
    rw [hnil, List.length_nil] at hlength
    omega
  rw [hrange, List.length_append, List.length_singleton] at hlength
  have hlast : (layerRange layers start stop).getLast? = some last := by
    rw [hrange, List.getLast?_concat]
  cases mid with
  | nil =>
    -- a single layer: the wrapper of the last one is all there is
    have hfirst : (layerRange layers start stop).head? = some last := by
      rw [hrange]
      rfl
    have hone : ¬(0 < modelShardMeta.deviceRank ∧ start + 2 ≤ stop) := by
      rw [List.length_nil] at hlength
      omega
    rw [pipelineAutoParallel_eq hkind hlt hle hstart hstop hfirst hlast, hrange, if_neg hone]
    simp [LanguageModel.callAsFunction, callLayers, Layer.callAsFunction, layerWork]
  | cons first mid =>
    have hfirst : (layerRange layers start stop).head? = some first := by
      rw [hrange]
      rfl
    have htwo : (0 < modelShardMeta.deviceRank ∧ start + 2 ≤ stop) ↔
        modelShardMeta.deviceRank ≠ 0 := by
      rw [List.length_cons] at hlength
      omega
    have hset : ∀ wrappedFirst wrappedLast : Layer ρ μ κ,
        (((first :: mid ++ [last]).map .transformerLayer).set 0 wrappedFirst).set
            ((first :: mid ++ [last]).length - 1) wrappedLast =
          wrappedFirst :: (mid.map .transformerLayer ++ [wrappedLast]) := by
      intro wrappedFirst wrappedLast
      simp
    rw [pipelineAutoParallel_eq hkind hlt hle hstart hstop hfirst hlast, hrange, hset]
    simp [LanguageModel.callAsFunction, callLayers, callLayers_append, callLayers_map,
      Layer.callAsFunction, layerWork, layerWork_append, htwo]

end wrapping

/-! ### The ranks as a chain of stages -/

namespace LayerSplit

variable {layerCount : ℕ} (split : LayerSplit layerCount) (asType : DType → ρ → ρ)
  (kind : ModelKind) (layers : List (TransformerLayer ρ μ κ)) (input : ModelInput ρ μ κ)

/-- What a rank does with a value once it is there. -/
def rankWork (r : ℕ) : List (MLXArray ρ → MLXArray ρ) :=
  layerWork input (split.cut r) (layerRange layers (split.cut r) (split.cut (r + 1))) ++
    (forceDType kind).toList.map (fun dtype => List.map (asType dtype))

/-- The ranks as stages: one after the first waits for the rank before it only if it has more
    than one layer. -/
def chain : StageChain (MLXArray ρ) where
  n := split.n
  stage := fun r =>
    { receives := decide (0 < r ∧ split.cut r + 2 ≤ split.cut (r + 1))
      work := split.rankWork asType kind layers input r }
  first := by simp
  use := lastRows

variable {split asType kind layers input}

/-- The cuts of a split come in order. -/
theorem cut_mono {r r' : ℕ} (h : r ≤ r') (hr : r' ≤ split.n) : split.cut r ≤ split.cut r' := by
  induction r' with
  | zero => rw [Nat.le_zero.mp h]
  | succ r' ih =>
    rcases Nat.eq_or_lt_of_le h with rfl | hlt
    · exact Nat.le_refl _
    · have hnext := split.cut_lt r' (by omega)
      have hbefore := ih (by omega) (by omega)
      omega

/-- No cut lies behind the last layer. -/
theorem cut_le {r : ℕ} (hr : r ≤ split.n) : split.cut r ≤ layerCount :=
  (cut_mono hr (Nat.le_refl _)).trans (Nat.le_of_eq split.cut_n)

/-- Every cut but the first lies behind the first layer, since no range is empty. -/
theorem cut_pos {r : ℕ} (hpos : 0 < r) (hr : r ≤ split.n) : 0 < split.cut r := by
  have hfirst : split.cut 0 < split.cut 1 := split.cut_lt 0 split.pos
  exact (Nat.zero_lt_of_lt hfirst).trans_le (cut_mono hpos hr)

/-- A model that can be split has a layer. -/
theorem layerCount_pos (split : LayerSplit layerCount) : 0 < layerCount :=
  (cut_pos split.pos (Nat.le_refl _)).trans_eq split.cut_n

/-- After its work a rank sends to the next one, and the last one to nobody. -/
theorem afterWork_chain {r : ℕ} (hr : r < split.n) :
    (split.chain asType kind layers input).afterWork r =
      (if (r : ℤ) ≠ split.n - 1 then [Op.send ((r + 1) % split.n)] else []) ++
        [.contribute, .collect lastRows] := by
  show (if r + 1 = split.n then [] else [Op.send (r + 1)]) ++
    [Op.contribute, Op.collect lastRows] = _
  by_cases hlast : r + 1 = split.n
  · have hno : ¬((r : ℤ) ≠ split.n - 1) := by omega
    rw [if_pos hlast, if_neg hno]
  · -- the destination is taken modulo the size of the ring, which changes nothing here
    have hsend : (r : ℤ) ≠ split.n - 1 := by omega
    have hmod : (r + 1) % split.n = r + 1 := Nat.mod_eq_of_lt (by omega)
    rw [if_neg hlast, if_pos hsend, hmod]

/-- The ranks that `pipelineAutoParallel` makes are those of the chain. -/
theorem ranks_eq_start (hkind : kind ≠ .other) (hlayers : layers.length = layerCount) :
    split.ranks asType kind layers input =
      (split.chain asType kind layers input).start input.x := by
  ext1 r
  rw [ranks, StageChain.start]
  congr 1
  show (if r < split.n then _ else []) = if r < split.n then _ else []
  by_cases hr : r < split.n
  · rw [if_pos hr, if_pos hr]
    have hle : split.cut (r + 1) ≤ layers.length := by
      rw [hlayers]
      exact cut_le hr
    have hcall : (pipelineAutoParallel (wholeModel kind layers)
        (split.shardMeta r)).callAsFunction asType input = _ :=
      callAsFunction_eq hkind (split.cut_lt r hr) hle rfl rfl
    have hreceives : ((split.chain asType kind layers input).stage r).receives = true ↔
        0 < r ∧ split.cut r + 2 ≤ split.cut (r + 1) := decide_eq_true_iff
    rw [hcall, StageChain.program, afterWork_chain hr]
    simp only [hreceives]
    rfl
  · rw [if_neg hr, if_neg hr]

/-! ### What the ranks end with -/

/-- An array cast to the type that is forced on it, if any. -/
def forced (asType : DType → ρ → ρ) (kind : ModelKind) (x : MLXArray ρ) : MLXArray ρ :=
  (forceDType kind).elim x (fun dtype => x.map (asType dtype))

/-- A cast keeps the number of rows. -/
theorem length_forced (x : MLXArray ρ) : (forced asType kind x).length = x.length := by
  rw [forced]
  cases forceDType kind with
  | none => rfl
  | some dtype => exact List.length_map _

/-- A stage of the chain runs its range of the layers, and casts what it sends. -/
theorem apply_stage (r : ℕ) (x : MLXArray ρ) :
    ((split.chain asType kind layers input).stage r).apply x =
      forced asType kind (applyLayers input (split.cut r)
        (layerRange layers (split.cut r) (split.cut (r + 1))) x) := by
  show (split.rankWork asType kind layers input r).foldl (fun x f => f x) x = _
  rw [rankWork, List.foldl_append, foldl_layerWork, forced]
  cases forceDType kind with
  | none => rfl
  | some dtype => rfl

/-- A stage keeps the number of rows. -/
theorem length_apply_stage (r : ℕ) (x : MLXArray ρ) :
    (((split.chain asType kind layers input).stage r).apply x).length = x.length := by
  rw [apply_stage, length_forced, length_applyLayers]

/-- What any rank puts out has as many rows as the input. -/
theorem length_output (r : ℕ) :
    ((split.chain asType kind layers input).output input.x r).length = input.x.length := by
  induction r with
  | zero => rw [StageChain.output, length_apply_stage]
  | succ r ih =>
    rw [StageChain.output, length_apply_stage]
    split
    · exact ih
    · rfl

/-- Of arrays put together, the last rows are those of the last array. -/
theorem lastRows_concat (output last : MLXArray ρ) (parts : List (MLXArray ρ))
    (h : last.length = output.length) : lastRows output (parts ++ [last]) = last := by
  have hflatten : (parts ++ [last]).flatten = parts.flatten ++ last := by
    rw [List.flatten_append, List.flatten_singleton]
  rw [lastRows, hflatten, List.length_append, ← h, Nat.add_sub_cancel, List.drop_left]

/-- Every rank goes on with the output of the last one. -/
theorem value_allFinished {r : ℕ} (hr : r < split.n) :
    ((split.chain asType kind layers input).allFinished input.x r).value =
      (split.chain asType kind layers input).output input.x (split.n - 1) := by
  rw [StageChain.allFinished_of_lt (show r < (split.chain asType kind layers input).n from hr)]
  show lastRows _ ((List.range split.n).map _) = _
  have hsucc : split.n = split.n - 1 + 1 := by
    have hpos := split.pos
    omega
  rw [hsucc, List.range_succ, List.map_append, List.map_singleton, Nat.add_sub_cancel]
  apply lastRows_concat
  rw [length_output, length_output]

/-- The ring computes the model's output exactly if the last stage of the chain does. -/
theorem sameOutput_iff (hkind : kind ≠ .other) (hlayers : layers.length = layerCount) :
    split.SameOutput asType kind layers input ↔
      (split.chain asType kind layers input).output input.x (split.n - 1) =
        applyLayers input 0 layers input.x := by
  have hstart : split.ranks asType kind layers input =
      (split.chain asType kind layers input).start input.x := ranks_eq_start hkind hlayers
  constructor
  · intro h
    obtain ⟨run, hrun⟩ := (split.chain asType kind layers input).run_finishes input.x
    rw [← hstart] at hrun
    have hvalue := (h.output run _ hrun StageChain.stuck_allFinished 0 split.pos).2
    rw [← hvalue, value_allFinished split.pos]
  · intro h
    constructor
    · rw [hstart]
      exact (split.chain asType kind layers input).run_length_le input.x
    · intro run after hrun hend r hr
      rw [hstart] at hrun
      have hafter : after = (split.chain asType kind layers input).allFinished input.x :=
        (split.chain asType kind layers input).eq_allFinished input.x hrun hend
      rw [hafter, value_allFinished hr, h]
      exact ⟨StageChain.allFinished_done r, rfl⟩

/-- What is sent is received if no rank after the first has a single layer. -/
theorem matched (hkind : kind ≠ .other) (hlayers : layers.length = layerCount)
    (hno : split.NoSingleLayer) : split.Matched asType kind layers input := by
  have hstart : split.ranks asType kind layers input =
      (split.chain asType kind layers input).start input.x := ranks_eq_start hkind hlayers
  constructor
  · intro run after hrun
    exact Ranks.received_sent (fun i j => List.prefix_rfl) hrun
  · intro run after hrun hend
    rw [hstart] at hrun
    have hafter : after = (split.chain asType kind layers input).allFinished input.x :=
      (split.chain asType kind layers input).eq_allFinished input.x hrun hend
    rw [hafter]
    apply StageChain.received_eq_sent
    intro r hpos hr
    exact decide_eq_true ⟨hpos, hno r hpos hr⟩

/-! ### No rank after the first has a single layer -/

/-- The cast of a GPT-OSS model changes nothing. -/
def CastHarmless (asType : DType → ρ → ρ) (kind : ModelKind) : Prop :=
  kind = .gptOSS → ∀ row, asType .bfloat16 row = row

/-- A cast that is harmless for the kind of the model changes nothing. -/
theorem forced_eq_self (hcast : CastHarmless asType kind) (x : MLXArray ρ) :
    forced asType kind x = x := by
  rw [forced, forceDType]
  by_cases hkind : kind = .gptOSS
  · rw [if_pos hkind]
    show x.map (asType .bfloat16) = x
    have hid : asType .bfloat16 = id := by
      ext1 row
      exact hcast hkind row
    rw [hid, List.map_id]
  · rw [if_neg hkind]
    rfl

/-- The layers before a range and the range are the layers before its end. -/
theorem take_append_layerRange {start stop : ℕ} (h : start ≤ stop) :
    layers.take start ++ layerRange layers start stop = layers.take stop := by
  have htake : layers.take start = (layers.take stop).take start := by
    rw [List.take_take, Nat.min_eq_left h]
  rw [htake, layerRange, List.take_append_drop]

/-- A rank makes what all layers up to its last one do. -/
theorem output_eq_applyLayers (hlayers : layers.length = layerCount)
    (hno : split.NoSingleLayer) (hcast : CastHarmless asType kind) {r : ℕ} (hr : r < split.n) :
    (split.chain asType kind layers input).output input.x r =
      applyLayers input 0 (layers.take (split.cut (r + 1))) input.x := by
  induction r with
  | zero =>
    rw [StageChain.output, apply_stage, forced_eq_self hcast, split.cut_zero]
    rfl
  | succ r ih =>
    have hreceives : ((split.chain asType kind layers input).stage (r + 1)).receives = true :=
      decide_eq_true ⟨Nat.succ_pos r, hno (r + 1) (Nat.succ_pos r) hr⟩
    have hlength : (layers.take (split.cut (r + 1))).length = split.cut (r + 1) := by
      rw [List.length_take, hlayers, Nat.min_eq_left (cut_le (by omega))]
    have htake : layers.take (split.cut (r + 1)) ++
        layerRange layers (split.cut (r + 1)) (split.cut (r + 2)) =
          layers.take (split.cut (r + 2)) :=
      take_append_layerRange (Nat.le_of_lt (split.cut_lt (r + 1) hr))
    rw [StageChain.output, hreceives, if_pos rfl, ih (by omega), apply_stage,
      forced_eq_self hcast, ← htake, applyLayers_append, hlength, Nat.zero_add]

/-- Without a rank of a single layer, and with a cast that is harmless, the ring computes what the
    model computes. -/
theorem sameOutput (hkind : kind ≠ .other) (hlayers : layers.length = layerCount)
    (hno : split.NoSingleLayer) (hcast : CastHarmless asType kind) :
    split.SameOutput asType kind layers input := by
  have hpos := split.pos
  apply (sameOutput_iff hkind hlayers).mpr
  rw [output_eq_applyLayers hlayers hno hcast (by omega), Nat.sub_add_cancel hpos,
    split.cut_n, ← hlayers, List.take_length]

/-! ### A rank after the first has a single layer, or the cast changes a row -/

/-- A layer that works on each row for itself. -/
def rowLayer (f : ρ → ρ) : TransformerLayer ρ μ κ where
  callAsFunction := fun x _ _ => x.map f
  dim_callAsFunction := fun _ _ _ => List.length_map _

/-- A layer that makes every row `row`. -/
def constantLayer (row : ρ) : TransformerLayer ρ μ κ := rowLayer (fun _ => row)

/-- A layer that gives its input back. -/
def identityLayer : TransformerLayer ρ μ κ where
  callAsFunction := fun x _ _ => x
  dim_callAsFunction := fun _ _ _ => rfl

/-- Behind a layer that gives always the same row, every row is that one. -/
theorem applyLayers_constant {position : ℕ} (row : ρ) (m : ℕ) (x : MLXArray ρ) :
    applyLayers input position (List.replicate (m + 1) (constantLayer row)) x =
      x.map (fun _ => row) := by
  induction m generalizing position x with
  | zero => rfl
  | succ m ih =>
    rw [List.replicate_succ, applyLayers, ih]
    exact List.map_map

/-- Layers that give their input back change nothing together. -/
theorem applyLayers_identity {position : ℕ} (x : MLXArray ρ)
    (h : ∀ layer ∈ layers, layer = identityLayer) :
    applyLayers input position layers x = x := by
  induction layers generalizing position with
  | nil => rfl
  | cons layer layers ih =>
    obtain ⟨rfl, hrest⟩ := List.forall_mem_cons.mp h
    exact ih hrest

/-- What any rank is given has as many rows as the input. -/
theorem length_given (r : ℕ) :
    ((split.chain asType kind layers input).given input.x r).length = input.x.length := by
  rw [StageChain.given]
  split
  · exact length_output (r - 1)
  · rfl

/-- If all layers make every row `row`, a rank makes the cast of `row`. -/
theorem output_constant {r : ℕ} (hr : r < split.n) {row : ρ} (hx : input.x = [row]) :
    (split.chain asType kind (.replicate layerCount (constantLayer row)) input).output input.x r =
      forced asType kind [row] := by
  have hlt := split.cut_lt r hr
  have hle : split.cut (r + 1) ≤ layerCount := cut_le hr
  have hrange : layerRange (List.replicate layerCount (constantLayer (μ := μ) (κ := κ) row))
      (split.cut r) (split.cut (r + 1)) =
        List.replicate (split.cut (r + 1) - split.cut r - 1 + 1) (constantLayer row) := by
    rw [layerRange, List.take_replicate, List.drop_replicate, Nat.min_eq_left hle,
      Nat.sub_add_cancel (by omega)]
  rw [StageChain.output_eq, apply_stage, hrange, applyLayers_constant]
  congr 1
  obtain ⟨value, hvalue⟩ : ∃ value, (split.chain asType kind
      (.replicate layerCount (constantLayer row)) input).given input.x r = [value] := by
    apply List.length_eq_one_iff.mp
    rw [length_given, hx]
    rfl
  rw [hvalue]
  rfl

/-- If all layers make every row `row`, the right output is `row` itself, and not its cast. -/
theorem castHarmless_of_sameOutput [Nonempty μ] (hkind : kind ≠ .other)
    (h : ∀ (layers : List (TransformerLayer ρ μ κ)) (input : ModelInput ρ μ κ),
      layers.length = layerCount → split.SameOutput asType kind layers input) :
    CastHarmless asType kind := by
  intro hgpt row
  obtain ⟨mask⟩ := ‹Nonempty μ›
  -- one row, and layers that make it `row`, so that only the casts can make a difference
  let input : ModelInput ρ μ κ :=
    { x := [row], mask := fun _ => mask, cache := fun _ => none }
  have hpos := split.pos
  have hlayerCount : layerCount - 1 + 1 = layerCount := Nat.sub_add_cancel split.layerCount_pos
  have hsame := (sameOutput_iff hkind List.length_replicate).mp
    (h (.replicate layerCount (constantLayer row)) input List.length_replicate)
  rw [output_constant (by omega) rfl, ← hlayerCount, applyLayers_constant, forced, forceDType,
    if_pos hgpt] at hsame
  exact List.singleton_inj.mp hsame

/-- The layers of a range that does not begin with the first one. -/
theorem mem_of_mem_layerRange {first layer : TransformerLayer ρ μ κ} {start stop : ℕ}
    (hpos : 0 < start) (h : layer ∈ layerRange (first :: layers) start stop) :
    layer ∈ layers := by
  obtain ⟨start, rfl⟩ := Nat.exists_eq_succ_of_ne_zero (Nat.ne_of_gt hpos)
  rw [layerRange] at h
  cases stop with
  | zero => simp at h
  | succ stop => exact List.mem_of_mem_take (List.mem_of_mem_drop h)

/-- If only the first layer does anything, a rank with a single layer, and every rank after it,
    makes what it was called with. -/
theorem output_identity (hcast : CastHarmless asType kind) {single : ℕ} (hpos : 0 < single)
    (hsingle : ¬(split.cut single + 2 ≤ split.cut (single + 1)))
    {first : TransformerLayer ρ μ κ} (hlayers : ∀ layer ∈ layers, layer = identityLayer) {r : ℕ}
    (hle : single ≤ r) (hr : r < split.n) :
    (split.chain asType kind (first :: layers) input).output input.x r = input.x := by
  have hstage : ∀ r, 0 < r → r < split.n → ∀ x,
      ((split.chain asType kind (first :: layers) input).stage r).apply x = x := by
    intro r hpos hr x
    have hcut : 0 < split.cut r := cut_pos hpos (Nat.le_of_lt hr)
    rw [apply_stage, forced_eq_self hcast]
    apply applyLayers_identity
    intro layer hmem
    exact hlayers layer (mem_of_mem_layerRange hcut hmem)
  rw [StageChain.output_eq, hstage r (by omega) hr]
  -- from the rank with the single layer on, whether a rank receives or not
  induction r, hle using Nat.le_induction with
  | base =>
    have hreceives :
        ((split.chain asType kind (first :: layers) input).stage single).receives = false :=
      decide_eq_false (fun h => hsingle h.2)
    rw [StageChain.given, hreceives]
    rfl
  | succ r hle ih =>
    rw [StageChain.given]
    split
    · rw [Nat.add_sub_cancel, StageChain.output_eq, hstage r (by omega) (by omega)]
      exact ih (by omega)
    · rfl

/-- If only the first layer does anything, what it does is lost in a rank with a single layer. -/
theorem noSingleLayer_of_sameOutput [Nontrivial ρ] [Nonempty μ] (hkind : kind ≠ .other)
    (hcast : CastHarmless asType kind)
    (h : ∀ (layers : List (TransformerLayer ρ μ κ)) (input : ModelInput ρ μ κ),
      layers.length = layerCount → split.SameOutput asType kind layers input) :
    split.NoSingleLayer := by
  intro r hpos hr
  by_contra hsingle
  obtain ⟨a, b, hne⟩ := exists_pair_ne ρ
  obtain ⟨mask⟩ := ‹Nonempty μ›
  -- the first layer makes `b` of every row, the others do nothing
  let input : ModelInput ρ μ κ := { x := [a], mask := fun _ => mask, cache := fun _ => none }
  let rest : List (TransformerLayer ρ μ κ) := .replicate (layerCount - 1) identityLayer
  have hrest : ∀ layer ∈ rest, layer = identityLayer := fun layer => List.eq_of_mem_replicate
  have hlength : (constantLayer b :: rest).length = layerCount := by
    rw [List.length_cons, List.length_replicate, Nat.sub_add_cancel split.layerCount_pos]
  have hsame := (sameOutput_iff hkind hlength).mp (h (constantLayer b :: rest) input hlength)
  rw [output_identity hcast hpos hsingle hrest (by omega) (by omega), applyLayers,
    applyLayers_identity _ hrest] at hsame
  exact hne (List.singleton_inj.mp hsame)

end LayerSplit

open LayerSplit

/-- **A split model computes what the model does** for all layers and all inputs exactly when no
    rank after the first has a single layer, and the cast of a GPT-OSS model changes nothing.
    The outputs alone are right under no other condition. -/
theorem pipeline_split_preserves_iff [Nontrivial ρ] [Nonempty μ] (asType : DType → ρ → ρ)
    {kind : ModelKind} (hkind : kind ≠ .other) {layerCount : ℕ} (split : LayerSplit layerCount) :
    ((∀ (layers : List (TransformerLayer ρ μ κ)) (input : ModelInput ρ μ κ),
        layers.length = layerCount →
          split.SameOutput asType kind layers input ∧ split.Matched asType kind layers input) ↔
      split.NoSingleLayer ∧ CastHarmless asType kind) ∧
    ((∀ (layers : List (TransformerLayer ρ μ κ)) (input : ModelInput ρ μ κ),
        layers.length = layerCount → split.SameOutput asType kind layers input) ↔
      split.NoSingleLayer ∧ CastHarmless asType kind) := by
  have hnecessary : (∀ (layers : List (TransformerLayer ρ μ κ)) (input : ModelInput ρ μ κ),
      layers.length = layerCount → split.SameOutput asType kind layers input) →
        split.NoSingleLayer ∧ CastHarmless asType kind := by
    intro h
    have hcast := castHarmless_of_sameOutput hkind h
    exact ⟨noSingleLayer_of_sameOutput hkind hcast h, hcast⟩
  constructor
  · constructor
    · intro h
      exact hnecessary (fun layers input hlength => (h layers input hlength).1)
    · rintro ⟨hno, hcast⟩ layers input hlength
      exact ⟨sameOutput hkind hlength hno hcast, matched hkind hlength hno⟩
  · constructor
    · exact hnecessary
    · rintro ⟨hno, hcast⟩ layers input hlength
      exact sameOutput hkind hlength hno hcast

/-! Two ranks, with a row of one number: the layers add one and multiply by ten in turn. -/

/-- Ranks with as many layers each, which is a split of the model. -/
def evenSplit (m k : ℕ) : LayerSplit ((m + 1) * (k + 1)) where
  n := m + 1
  cut := fun r => r * (k + 1)
  pos := Nat.succ_pos m
  cut_zero := Nat.zero_mul _
  cut_n := rfl
  cut_lt := fun r _ => Nat.mul_lt_mul_of_pos_right (Nat.lt_succ_self r) (Nat.succ_pos k)

/-- A layer that adds one to each row. -/
def addOne : TransformerLayer ℕ Unit Unit := rowLayer (fun row => row + 1)

/-- A layer that multiplies each row by ten; it does not commute with the one that adds one. -/
def timesTen : TransformerLayer ℕ Unit Unit := rowLayer (fun row => row * 10)

/-- An input of one row, without a mask or a cache. -/
def oneRow : ModelInput ℕ Unit Unit where
  x := [1]
  mask := fun _ => ()
  cache := fun _ => none

/-- Four layers on two ranks of two each: the ring's output is the model's. -/
theorem pipeline_split_preserves_two_each :
    (evenSplit 1 1).SameOutput (fun _ row => row) .llama [addOne, timesTen, addOne, timesTen]
        oneRow ∧
      (evenSplit 1 1).Matched (fun _ row => row) .llama [addOne, timesTen, addOne, timesTen]
        oneRow := by
  have hno : (evenSplit 1 1).NoSingleLayer := by
    intro r _ _
    show r * 2 + 2 ≤ (r + 1) * 2
    omega
  have hcast : CastHarmless (fun (_ : DType) (row : ℕ) => row) .llama := fun _ _ => rfl
  exact (pipeline_split_preserves_iff _ (by decide) (evenSplit 1 1)).1.mpr ⟨hno, hcast⟩ _ _ rfl

/-- With a layer each, the second rank multiplies the 1 that the model was called with.  What the
    first one has sent to it stays on its way. -/
theorem single_layers_lose_first :
    ¬(evenSplit 1 0).SameOutput (fun _ row => row) .llama [addOne, timesTen] oneRow ∧
      ¬(evenSplit 1 0).Matched (fun _ row => row) .llama [addOne, timesTen] oneRow := by
  have hstart : (evenSplit 1 0).ranks (fun _ row => row) .llama [addOne, timesTen] oneRow =
      ((evenSplit 1 0).chain (fun _ row => row) .llama [addOne, timesTen] oneRow).start oneRow.x :=
    ranks_eq_start (by decide) rfl
  constructor
  · intro h
    have hiff : (evenSplit 1 0).SameOutput (fun _ row => row) .llama [addOne, timesTen] oneRow ↔
        _ := sameOutput_iff (by decide) rfl
    have houtput : [10] = [20] := hiff.mp h
    simp at houtput
  · intro h
    obtain ⟨run, hrun⟩ := ((evenSplit 1 0).chain (fun _ row => row) .llama [addOne, timesTen]
      oneRow).run_finishes oneRow.x
    rw [← hstart] at hrun
    have hlost : [] = [[2]] := h.sent_received run _ hrun StageChain.stuck_allFinished 0 1
    simp at hlost

end ShareCompute.App
