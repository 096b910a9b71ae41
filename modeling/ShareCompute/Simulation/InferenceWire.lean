import Mathlib.Data.List.Sort
import Mathlib.Data.Rat.Floor
import ShareCompute.Library.BigEndian
import ShareCompute.Simulation.PortableHub

namespace ShareCompute.Simulation

open ShareCompute.Library ShareCompute.Cluster

/-!
# What the peers of the inference pipeline exchange

`inference_pipeline_lib.py`: the plan as a dictionary, `shards_to_plan_dict` and
`plan_dict_to_shards`, and the frames of the data plane, `encode_activation` and
`recv_activation`, over a stream of bytes.

A frame is read off the bytes that have arrived and were not read; while too few have, the
reader waits.  `hashlib.sha256` and `fake_compute` are parameters.
-/

/-- What the pipeline uses and does not define. -/
structure Outside extends Conversions (Option ℚ) where
  int_int : ∀ n, int (.int n) = some n
  float_float : ∀ q, float (.float q) = some q
  /-- where `int(value)` raises, that it raises a `ValueError` -/
  intValueError : Json → Bool
  /-- `hashlib.sha256(data).digest()` -/
  sha256 : Bytes → Bytes
  length_sha256 : ∀ data, (sha256 data).length = 32
  /-- `fake_compute(payload, layers, token_id, rank)` -/
  fakeCompute : Bytes → ℤ → ℕ → ℤ → Bytes
  length_fakeCompute : ∀ payload layers tokenId rank,
    (fakeCompute payload layers tokenId rank).length = payload.length

/-! ### The plan -/

/-- `estimatedGb` is none where Python's is not finite. -/
structure InferShard where
  rank : ℤ
  platform : String
  nodeId : String
  role : String
  startLayer : ℤ
  endLayer : ℤ
  estimatedGb : Option ℚ
  dataHost : String
  dataPort : ℤ
deriving DecidableEq, Inhabited

namespace InferShard

/-- How many layers a shard has, from its first one up to its end. -/
def layerCount (self : InferShard) : ℤ := self.endLayer - self.startLayer

/-- Where a shard's peer listens for the data plane. -/
def address (self : InferShard) : String × ℤ := (self.dataHost, self.dataPort)

end InferShard

/-- `DEFAULT_TOKEN_COUNT`, for a plan that tells no number of tokens. -/
def defaultTokenCount : ℤ := 8

/-- `DEFAULT_ACTIVATION_BYTES`, the size of an activation that the plan asks for. -/
def defaultActivationBytes : ℤ := 4096

/-- `shard_to_dict(shard)`, with the keys in the source's order. -/
def shardToDict (shard : InferShard) : Json :=
  .dict [
    ("rank", .int shard.rank),
    ("platform", .str shard.platform),
    ("node_id", .str shard.nodeId),
    ("role", .str shard.role),
    ("start_layer", .int shard.startLayer),
    ("end_layer", .int shard.endLayer),
    ("estimated_gb", .float shard.estimatedGb),
    ("data_host", .str shard.dataHost),
    ("data_port", .int shard.dataPort)]

/-- `shards_to_plan_dict(epoch, shards, token_count)`, the message in which the hub sends its
    plan. -/
def shardsToPlanDict (epoch : String) (shards : List InferShard) (tokenCount : ℤ) : Dict :=
  [
    ("type", .str "plan"),
    ("epoch", .str epoch),
    ("token_count", .int tokenCount),
    ("activation_bytes", .int defaultActivationBytes),
    ("shards", .list (shards.map shardToDict))]

/-- What `for raw in value` goes through; none where it raises. -/
def elements : Json → Option (List Json)
  | .list items => some items
  | .dict items => some (items.map (fun item => .str item.1))
  | .str text => some (text.toList.map (fun c => .str (String.singleton c)))
  | _ => none

/-- The call `shards.sort(key=lambda s: s.rank)`, which is stable. -/
def sortByRank (shards : List InferShard) : List InferShard :=
  shards.insertionSort (fun a b => a.rank ≤ b.rank)

/-- `max(1, min(8, int(estimated_gb)))` slots; none where `int` raises. -/
def bufferBudgetBytes (estimatedGb : Option ℚ) : Option ℤ :=
  estimatedGb.map (fun gb => max 1 (min 8 (gb.num.tdiv gb.den)) * defaultActivationBytes)

/-- `activation_nbytes_for_budget(budget, requested)`; none where it raises `ValueError`. -/
def activationNbytesForBudget (budget requested : ℤ) : Option ℤ :=
  if budget ≤ 0 then none
  else if requested > budget then none
  else some requested

/-! ### Activations -/

/-- A frame of the data plane: for which token it is, between which ranks, and the activation. -/
structure ActivationMsg where
  epoch : String
  tokenId : ℕ
  rankFrom : ℤ
  rankTo : ℤ
  payload : Bytes

/-- `DATA_HEADER_MAGIC`, the bytes `b"SCIN"`. -/
def dataHeaderMagic : Bytes := [83, 67, 73, 78]

/-- `struct.pack` of a field of `width` bytes, `"!I"` or `"!H"`; none where it raises. -/
def packUnsigned (width : ℕ) : ℤ → Option Bytes
  | .ofNat n => if n < 256 ^ width then some (packBE width n) else none
  | .negSucc _ => none

/-- Why `recv_activation` raises, with the numbers that its message shows. -/
inductive FrameError
  | badMagic (magic : Bytes)
  | unreasonable (nbytes : ℕ)
  | exceedsBudget (nbytes : ℕ) (budget : ℤ)
  /-- the epoch is not UTF-8 -/
  | undecodable
  | hashMismatch

/-- What can be read off the bytes that have arrived: too few of them, an error, or a frame and what
    follows it. -/
inductive Frame
  /-- more bytes are needed -/
  | incomplete
  | raised (error : FrameError)
  | message (msg : ActivationMsg) (rest : Bytes)

namespace Outside

variable (outside : Outside)

/-- One element of `msg["shards"]`, if all its fields can be converted. -/
def readShard : Json → Option InferShard
  | .dict raw => do
      let rank ← outside.int (← raw.lookup "rank")
      let platform := outside.str (← raw.lookup "platform")
      let nodeId := outside.str (← raw.lookup "node_id")
      let role := outside.str (← raw.lookup "role")
      let startLayer ← outside.int (← raw.lookup "start_layer")
      let endLayer ← outside.int (← raw.lookup "end_layer")
      let estimatedGb ← outside.float (← raw.lookup "estimated_gb")
      let dataHost := outside.str (← raw.lookup "data_host")
      let dataPort ← outside.int (← raw.lookup "data_port")
      return ⟨rank, platform, nodeId, role, startLayer, endLayer, estimatedGb, dataHost, dataPort⟩
  | _ => none

/-- `plan_dict_to_shards(msg)`: the epoch, the count of tokens and the shards in the order of their
    ranks; none where it raises. -/
def planDictToShards (msg : Dict) : Option (String × ℤ × List InferShard) := do
  let epoch := outside.str (← msg.lookup "epoch")
  let tokenCount ← outside.int (msg.getD "token_count" (.int defaultTokenCount))
  let raws ← elements (← msg.lookup "shards")
  let shards ← raws.mapM outside.readShard
  return (epoch, tokenCount, sortByRank shards)

/-- `epoch_hash32(epoch)`: the first four bytes of the digest as a number. -/
def epochHash32 (epoch : String) : ℕ := unpackBE ((outside.sha256 (utf8 epoch)).take 4)

/-- What the loop of `make_prompt_activation` appends while `missing` bytes are missing. -/
def fillActivation : ℕ → Bytes → ℕ → Bytes
  | 0, _, _ => []
  | rounds + 1, seed, missing =>
      if 0 < missing then
        let seed := outside.sha256 seed
        seed ++ fillActivation rounds seed (missing - seed.length)
      else []

/-- Every round appends something, so there are at most `nbytes` of them. -/
def makePromptActivation (prompt : String) (nbytes : ℤ) : Bytes :=
  (outside.fillActivation nbytes.toNat (outside.sha256 (utf8 prompt)) nbytes.toNat).take
    nbytes.toNat

end Outside

/-! ### One codec under two magics -/

/-- A copy of the codec: `inference_pipeline_lib.py` and `portable_dual_topology_lib.py` have one
    each. -/
structure Codec where
  magic : Bytes
  length_magic : magic.length = 4

/-- The codec of `inference_pipeline_lib.py`, told by its magic. -/
def inferenceCodec : Codec := ⟨dataHeaderMagic, rfl⟩

/-- The codec of `portable_dual_topology_lib.py`, whose `DATA_HEADER_MAGIC` is `b"SCPT"`. -/
def portableCodec : Codec := ⟨[83, 67, 80, 84], rfl⟩

namespace Codec

variable (codec : Codec) (outside : Outside)

/-- The frame `encode_activation(msg)`; none where `struct.pack` raises. -/
def encodeActivation (msg : ActivationMsg) : Option Bytes := do
  let hash ← packUnsigned 4 (outside.epochHash32 msg.epoch)
  let tokenId ← packUnsigned 4 msg.tokenId
  let rankFrom ← packUnsigned 4 msg.rankFrom
  let rankTo ← packUnsigned 4 msg.rankTo
  let nbytes ← packUnsigned 4 msg.payload.length
  let reserved ← packUnsigned 4 0
  let elen ← packUnsigned 2 (utf8 msg.epoch).length
  return codec.magic ++ hash ++ tokenId ++ rankFrom ++ rankTo ++ nbytes ++ reserved ++ elen ++
    utf8 msg.epoch ++ msg.payload

/-- The size of the payload that a header declares. -/
def declared (header : Bytes) : ℕ := unpackBE ((header.drop 20).take 4)

/-- What `recv_activation` says to a header, if it raises because of it. -/
def headerError (maxPayloadBytes : Option ℤ) (header : Bytes) : Option FrameError :=
  if header.take 4 ≠ codec.magic then some (.badMagic (header.take 4))
  else if declared header > 64 * 1024 * 1024 then some (.unreasonable (declared header))
  else
    match maxPayloadBytes with
    | none => none
    | some budget =>
        if (declared header : ℤ) > budget then some (.exceedsBudget (declared header) budget)
        else none

/-- `recv_activation` on the bytes that have arrived: the next frame, with the header of
    `struct.calcsize("!4sIIIIII")` bytes, whose last field is reserved, and the epoch itself behind
    it, so that it can be compared exactly. -/
def frame (maxPayloadBytes : Option ℤ) (stream : Bytes) : Frame :=
  match takeBytes 28 stream with
  | none => .incomplete
  | some (header, stream) =>
      match codec.headerError maxPayloadBytes header with
      | some error => .raised error
      | none =>
          match takeBytes 2 stream with
          | none => .incomplete
          | some (elen, stream) =>
              match takeBytes (unpackBE elen) stream with
              | none => .incomplete
              | some (epochBytes, stream) =>
                  match decodeUtf8 epochBytes with
                  | none => .raised .undecodable
                  | some epoch =>
                      if outside.epochHash32 epoch ≠ unpackBE ((header.drop 4).take 4) then
                        .raised .hashMismatch
                      else
                        match takeBytes (declared header) stream with
                        | none => .incomplete
                        | some (payload, stream) =>
                            .message ⟨epoch, unpackBE ((header.drop 8).take 4),
                              unpackBE ((header.drop 12).take 4),
                              unpackBE ((header.drop 16).take 4), payload⟩ stream

end Codec

namespace Outside

variable (outside : Outside)

/-- The frame `encode_activation(msg)` of the pipeline's library. -/
def encodeActivation (msg : ActivationMsg) : Option Bytes :=
  inferenceCodec.encodeActivation outside msg

/-- `recv_activation(sock, deadline, max_payload_bytes=budget)` of the pipeline's library, off the
    bytes that have arrived. -/
def recvActivation (budget : ℤ) (stream : Bytes) : Frame :=
  inferenceCodec.frame outside (some budget) stream

/-! ### The plan survives -/

/-- A shard comes back from its dictionary. -/
@[simp] theorem readShard_shardToDict (shard : InferShard) :
    outside.readShard (shardToDict shard) = some shard := by
  simp [readShard, shardToDict, List.lookup_cons, outside.int_int, outside.str_str,
    outside.float_float]

/-- The dictionary loses nothing but the order of the shards. -/
theorem planDictToShards_shardsToPlanDict (epoch : String) (shards : List InferShard)
    (tokenCount : ℤ) :
    outside.planDictToShards (shardsToPlanDict epoch shards tokenCount)
      = some (epoch, tokenCount, sortByRank shards) := by
  have hshards : (shards.map shardToDict).mapM outside.readShard = some shards := by
    induction shards with
    | nil => rfl
    | cons shard shards ih => simp [ih]
  simp [planDictToShards, shardsToPlanDict, List.lookup_cons, Dict.getD, elements,
    outside.int_int, outside.str_str, hshards]

/-! ### Activations have the size that is asked for -/

/-- The loop ends when nothing is missing. -/
theorem le_length_fillActivation {rounds missing : ℕ} (seed : Bytes) (h : missing ≤ rounds) :
    missing ≤ (outside.fillActivation rounds seed missing).length := by
  induction rounds generalizing seed missing with
  | zero => exact h.trans (Nat.zero_le _)
  | succ rounds ih =>
    rw [fillActivation]
    split
    case isTrue =>
      have hfewer : missing - (outside.sha256 seed).length ≤ rounds := by
        rw [outside.length_sha256]
        omega
      have hrest := ih (outside.sha256 seed) hfewer
      rw [List.length_append]
      omega
    case isFalse hnone => omega

/-- An activation that is made of a prompt has the size that was asked for. -/
theorem length_makePromptActivation (prompt : String) (nbytes : ℤ) :
    (outside.makePromptActivation prompt nbytes).length = nbytes.toNat := by
  have hle := outside.le_length_fillActivation (outside.sha256 (utf8 prompt))
    (le_refl nbytes.toNat)
  rw [makePromptActivation, List.length_take]
  omega

end Outside

/-! ### What is sent is received -/

/-- A number that could be packed comes back from its bytes. -/
theorem unpackBE_of_packUnsigned {width : ℕ} {value : ℤ} {bytes : Bytes}
    (h : packUnsigned width value = some bytes) :
    bytes.length = width ∧ (unpackBE bytes : ℤ) = value := by
  cases value with
  | negSucc n => cases h
  | ofNat n =>
    rw [packUnsigned] at h
    split at h
    case isTrue hfits =>
      obtain rfl := Option.some.inj h
      exact ⟨length_packBE width n, by rw [unpackBE_packBE hfits]; rfl⟩
    case isFalse => cases h

namespace Codec

variable (codec : Codec) (outside : Outside)

/-- The parts of a frame, each of which could be packed. -/
theorem parts_of_encodeActivation {msg : ActivationMsg} {bytes : Bytes}
    (h : codec.encodeActivation outside msg = some bytes) :
    ∃ hash tokenId rankFrom rankTo nbytes reserved elen : Bytes,
      packUnsigned 4 (outside.epochHash32 msg.epoch) = some hash ∧
      packUnsigned 4 msg.tokenId = some tokenId ∧
      packUnsigned 4 msg.rankFrom = some rankFrom ∧ packUnsigned 4 msg.rankTo = some rankTo ∧
      packUnsigned 4 msg.payload.length = some nbytes ∧ packUnsigned 4 0 = some reserved ∧
      packUnsigned 2 (utf8 msg.epoch).length = some elen ∧
      bytes = (codec.magic ++ hash ++ tokenId ++ rankFrom ++ rankTo ++ nbytes ++ reserved) ++
        (elen ++ (utf8 msg.epoch ++ msg.payload)) := by
  simp only [encodeActivation, Option.bind_eq_bind, Option.bind_eq_some_iff] at h
  obtain ⟨hash, hhash, tokenId, htokenId, rankFrom, hrankFrom, rankTo, hrankTo, nbytes, hnbytes,
    reserved, hreserved, elen, helen, hbytes⟩ := h
  refine ⟨hash, tokenId, rankFrom, rankTo, nbytes, reserved, elen, hhash, htokenId, hrankFrom,
    hrankTo, hnbytes, hreserved, helen, ?_⟩
  simpa using (Option.some.inj hbytes).symm

/-- The fields of a header are where `recv_activation` looks for them. -/
theorem header_fields {magic hash tokenId rankFrom rankTo nbytes reserved header : Bytes}
    (hmagic : magic.length = 4) (hhash : hash.length = 4) (htokenId : tokenId.length = 4)
    (hrankFrom : rankFrom.length = 4) (hrankTo : rankTo.length = 4) (hnbytes : nbytes.length = 4)
    (hheader : magic ++ hash ++ tokenId ++ rankFrom ++ rankTo ++ nbytes ++ reserved = header) :
    header.take 4 = magic ∧ (header.drop 4).take 4 = hash ∧
      (header.drop 8).take 4 = tokenId ∧ (header.drop 12).take 4 = rankFrom ∧
      (header.drop 16).take 4 = rankTo ∧ (header.drop 20).take 4 = nbytes := by
  obtain ⟨_, _, _, _, rfl⟩ := List.length_eq_four.mp hmagic
  obtain ⟨_, _, _, _, rfl⟩ := List.length_eq_four.mp hhash
  obtain ⟨_, _, _, _, rfl⟩ := List.length_eq_four.mp htokenId
  obtain ⟨_, _, _, _, rfl⟩ := List.length_eq_four.mp hrankFrom
  obtain ⟨_, _, _, _, rfl⟩ := List.length_eq_four.mp hrankTo
  obtain ⟨_, _, _, _, rfl⟩ := List.length_eq_four.mp hnbytes
  subst hheader
  exact ⟨rfl, rfl, rfl, rfl, rfl, rfl⟩

/-- A frame is a header and what the header is about. -/
theorem header_of_encodeActivation {msg : ActivationMsg} {bytes : Bytes}
    (h : codec.encodeActivation outside msg = some bytes) :
    ∃ header elen : Bytes, bytes = header ++ (elen ++ (utf8 msg.epoch ++ msg.payload)) ∧
      header.length = 28 ∧ header.take 4 = codec.magic ∧
      unpackBE ((header.drop 4).take 4) = outside.epochHash32 msg.epoch ∧
      unpackBE ((header.drop 8).take 4) = msg.tokenId ∧
      (unpackBE ((header.drop 12).take 4) : ℤ) = msg.rankFrom ∧
      (unpackBE ((header.drop 16).take 4) : ℤ) = msg.rankTo ∧
      declared header = msg.payload.length ∧
      elen.length = 2 ∧ unpackBE elen = (utf8 msg.epoch).length := by
  obtain ⟨hash, tokenId, rankFrom, rankTo, nbytes, reserved, elen, hhash, htokenId, hrankFrom,
    hrankTo, hnbytes, hreserved, helen, rfl⟩ := codec.parts_of_encodeActivation outside h
  obtain ⟨hhash, hhash'⟩ := unpackBE_of_packUnsigned hhash
  obtain ⟨htokenId, htokenId'⟩ := unpackBE_of_packUnsigned htokenId
  obtain ⟨hrankFrom, hrankFrom'⟩ := unpackBE_of_packUnsigned hrankFrom
  obtain ⟨hrankTo, hrankTo'⟩ := unpackBE_of_packUnsigned hrankTo
  obtain ⟨hnbytes, hnbytes'⟩ := unpackBE_of_packUnsigned hnbytes
  obtain ⟨hreserved, -⟩ := unpackBE_of_packUnsigned hreserved
  obtain ⟨helen, helen'⟩ := unpackBE_of_packUnsigned helen
  have hmagic := codec.length_magic
  generalize hheader : codec.magic ++ hash ++ tokenId ++ rankFrom ++ rankTo ++ nbytes ++
    reserved = header
  obtain ⟨h₀, h₁, h₂, h₃, h₄, h₅⟩ :=
    header_fields hmagic hhash htokenId hrankFrom hrankTo hnbytes hheader
  refine ⟨header, elen, rfl, ?_, h₀, ?_, ?_, ?_, ?_, ?_, helen, ?_⟩
  · simp only [← hheader, List.length_append]
    omega
  · rw [h₁]
    omega
  · rw [h₂]
    omega
  · rw [h₃, hrankFrom']
  · rw [h₄, hrankTo']
  · rw [declared, h₅]
    omega
  · omega

/-- **Round trip.**  The frame of an activation within the limits is read back, and what
    follows it is left. -/
theorem frame_encodeActivation {msg : ActivationMsg} {bytes : Bytes} {budget : Option ℤ}
    (h : codec.encodeActivation outside msg = some bytes)
    (hsize : msg.payload.length ≤ 64 * 1024 * 1024)
    (hbudget : ∀ b ∈ budget, (msg.payload.length : ℤ) ≤ b) (rest : Bytes) :
    codec.frame outside budget (bytes ++ rest) = .message msg rest := by
  obtain ⟨header, elen, rfl, hlength, hmagic, hhash, htokenId, hrankFrom, hrankTo, hdeclared,
    helen, hepoch⟩ := codec.header_of_encodeActivation outside h
  have haccept : codec.headerError budget header = none := by
    unfold headerError
    rw [hmagic, hdeclared, if_neg (by simp), if_neg (by omega)]
    cases budget with
    | none => rfl
    | some b => exact if_neg (not_lt.mpr (hbudget b rfl))
  rw [frame, List.append_assoc, takeBytes_append hlength]
  simp only [haccept]
  rw [List.append_assoc, takeBytes_append helen]
  simp only []
  rw [List.append_assoc, takeBytes_append hepoch.symm]
  simp only [decodeUtf8_utf8]
  rw [if_neg (by simp [hhash]), hdeclared, takeBytes_append rfl]
  simp only [htokenId, hrankFrom, hrankTo]

end Codec

namespace Outside

variable (outside : Outside)

/-- What the pipeline sends is received as it was, with what follows it left in the stream. -/
theorem recvActivation_encodeActivation {msg : ActivationMsg} {bytes : Bytes} {budget : ℤ}
    (h : outside.encodeActivation msg = some bytes)
    (hsize : msg.payload.length ≤ 64 * 1024 * 1024)
    (hbudget : (msg.payload.length : ℤ) ≤ budget) (rest : Bytes) :
    outside.recvActivation budget (bytes ++ rest) = .message msg rest := by
  rw [recvActivation]
  refine inferenceCodec.frame_encodeActivation outside h hsize (fun b hb => ?_) rest
  rwa [← Option.mem_some_iff.mp hb]

/-- Nothing has arrived, so the reader waits. -/
theorem recvActivation_nil (budget : ℤ) : outside.recvActivation budget [] = .incomplete := rfl

end Outside

end ShareCompute.Simulation
