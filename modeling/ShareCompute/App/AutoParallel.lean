import ShareCompute.App.ModelManager
import ShareCompute.Library.Ranks

namespace ShareCompute.App

open ShareCompute.Library
open ShareCompute.Library.Ranks (Op)

/-!
# Wrapping a model's layers for a pipeline

`AutoParallel.swift`: a rank keeps a range of the layers of a model.  The first one of them is
wrapped to take what it works on from the rank before, the last one to hand its output on to the
rank after and to go on with what the last rank has made.

Layers, arrays and the group are MLX's.  A layer is a function of the array, the mask and the
cache it is called with; what a call does with the group is a list of operations of a rank.
-/

/-- An array by its rows: those of dimension 0. -/
abbrev MLXArray (ρ : Type) := List ρ

/-- The types of number that a model computes with. -/
inductive DType
  | float16
  | bfloat16
  | float32
deriving DecidableEq

/-- A layer of a language model.  It works on a batch, and gives one of the same size. -/
structure TransformerLayer (ρ μ κ : Type) where
  callAsFunction : MLXArray ρ → μ → Option κ → MLXArray ρ
  dim_callAsFunction : ∀ x mask cache, (callAsFunction x mask cache).length = x.length

/-- What stands among the layers of a model, by the type it is cast to. -/
inductive Layer (ρ μ κ : Type)
  | transformerLayer (layer : TransformerLayer ρ μ κ)
  | unaryLayer (layer : MLXArray ρ → MLXArray ρ)
  /-- a module that cannot be called as either -/
  | module
  | pipelineFirstLayer (originalLayer : Layer ρ μ κ) (r : ℕ)
  | pipelineLastLayer (originalLayer : Layer ρ μ κ) (r s : ℕ) (forceDType : Option DType)

/-- The models that the app knows how to take apart; any other is left whole. -/
inductive ModelKind
  | llama
  | deepseekV3
  | qwen3MoE
  | qwen3
  | lfm2
  | gptOSS
  | glm4MoELite
  /-- a model that the split does not know -/
  | other
deriving DecidableEq

/-- A model as a list of layers, some of which may be wrapped, and the place of the first of them in
    the whole model. -/
structure LanguageModel (ρ μ κ : Type) where
  kind : ModelKind
  layers : List (Layer ρ μ κ)
  /-- the position of the first one among the layers of the whole model -/
  shardOffset : ℕ

variable {ρ μ κ : Type}

/-! ### The wrapping -/

/-- The layers of a model, as far as the app knows how to find them. -/
def getLayers (model : LanguageModel ρ μ κ) : List (Layer ρ μ κ) :=
  if model.kind = .other then [] else model.layers

/-- The layers of a model are replaced, and so is the place of the first one. -/
def setLayers (model : LanguageModel ρ μ κ) (newLayers : List (Layer ρ μ κ)) (shardOffset : ℕ) :
    LanguageModel ρ μ κ :=
  if model.kind = .other then model
  else { model with layers := newLayers, shardOffset := shardOffset }

/-- Parallelizes a model: the rank keeps the layers that `modelShardMeta` says. -/
def pipelineAutoParallel (model : LanguageModel ρ μ κ) (modelShardMeta : ShardMetadata) :
    LanguageModel ρ μ κ :=
  let layers := getLayers model
  if layers.isEmpty then model
  else
    let safeStart := max 0 (min modelShardMeta.startLayer layers.length)
    let safeEnd := max safeStart (min modelShardMeta.endLayer layers.length)
    let subsetLayers := (layers.take safeEnd.toNat).drop safeStart.toNat
    match subsetLayers.head?, subsetLayers.getLast? with
    | some firstLayer, some lastLayer =>
        let forceDType := if model.kind = .gptOSS then some DType.bfloat16 else none
        let first := Layer.pipelineFirstLayer firstLayer modelShardMeta.deviceRank
        let last := Layer.pipelineLastLayer lastLayer modelShardMeta.deviceRank
          modelShardMeta.worldSize forceDType
        -- of a single layer, the second assignment takes the place of the first one
        let newLayers := (subsetLayers.set 0 first).set (subsetLayers.length - 1) last
        setLayers model newLayers safeStart.toNat
    | _, _ => model

/-! ### A call of the model -/

/-- `gathered[startIndex..<totalSize]`: as many rows from the end as `output` has. -/
def lastRows (output : MLXArray ρ) (parts : List (MLXArray ρ)) : MLXArray ρ :=
  let gathered := parts.flatten
  gathered.drop (gathered.length - output.length)

variable (asType : DType → ρ → ρ)

/-- What a rank does when it calls the layer.  `asType` is the cast of a row. -/
def Layer.callAsFunction : Layer ρ μ κ → μ → Option κ → List (Op (MLXArray ρ))
  | .transformerLayer layer, mask, cache => [.compute (fun x => layer.callAsFunction x mask cache)]
  | .unaryLayer layer, _, _ => [.compute layer]
  | .module, _, _ => [.trap] -- `fatalError`
  | .pipelineFirstLayer originalLayer r, mask, cache =>
      (if r ≠ 0 then [.recv (r - 1)] else []) ++ originalLayer.callAsFunction mask cache
  | .pipelineLastLayer originalLayer r s forceDType, mask, cache =>
      originalLayer.callAsFunction mask cache ++
        ((forceDType.toList.map (fun dtype => .compute (List.map (asType dtype)))) ++
          ((if (r : ℤ) ≠ s - 1 then [.send ((r + 1) % s)] else []) ++
            [.contribute, .collect lastRows]))

/-- What a model is called with: the embedded tokens, and for each of its layers, by position,
    the mask and the cache. -/
structure ModelInput (ρ μ κ : Type) where
  x : MLXArray ρ
  mask : ℕ → μ
  cache : ℕ → Option κ

/-- The calls of layers, the first of which is at `position`. -/
def callLayers (input : ModelInput ρ μ κ) : ℕ → List (Layer ρ μ κ) → List (Op (MLXArray ρ))
  | _, [] => []
  | position, layer :: layers =>
      layer.callAsFunction asType (input.mask position) (input.cache position) ++
        callLayers input (position + 1) layers

/-- The call of a model is that of its layers, one after the other from the shard's first one on. -/
def LanguageModel.callAsFunction (model : LanguageModel ρ μ κ) (input : ModelInput ρ μ κ) :
    List (Op (MLXArray ρ)) :=
  callLayers asType input model.shardOffset model.layers

end ShareCompute.App
