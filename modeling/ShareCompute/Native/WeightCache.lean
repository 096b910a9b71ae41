import ShareCompute.Library.ByteMemory
import Mathlib.Algebra.Group.Nat.Defs
import Mathlib.Logic.Function.Basic

namespace ShareCompute.Native

open ShareCompute.Library

/-!
# The weight cache

`llama-cache.patch`: `rpc_server::set_tensor_hash` installs a tensor's bytes from a file the
worker saved in an earlier run, so that the client need not send them, and
`rpc_server::set_tensor` saves what the client does send.

Taken from outside the patch are the tensor a request names (`deserialize_tensor`, which
asserts that the tensor lies in its buffer), the checks `set_tensor` makes before the patched
lines, and the step of the FNV hash, which is a left fold over bytes.  Pointers, sizes and
offsets are `uint64_t` and the checks on them wrap; a file does not change during a call.

* `verify_eq` — the chunked pass sees the whole file and computes its hash.
* `fits_iff` — the two bounds checks, in wrapping arithmetic, mean what they should.
* `setTensorHash_cases` — every way a request can end.
* `weight_cache_sound` — the law of the cache and of the client's exchange.
-/

/-! ### Hashes, files and streams -/

/-- The FNV hash: where it starts and what one byte does to it. -/
structure Fnv where
  basis : UInt64
  step : UInt64 → UInt8 → UInt64

/-- The value of `fnv_hash(data, size, hash)`, which takes one byte after the other. -/
def Fnv.hash (fnv : Fnv) (data : List UInt8) (hash : UInt64) : UInt64 := data.foldl fnv.step hash

/-- Hashing two pieces of data one after the other is to hash them together, which is how a file is
    hashed by blocks. -/
theorem Fnv.hash_append (fnv : Fnv) (a b : List UInt8) (hash : UInt64) :
    fnv.hash (a ++ b) hash = fnv.hash b (fnv.hash a hash) := List.foldl_append

/-- Bytes as many as a `size_t` counts: a file, or what a client sends. -/
structure Bytes where
  contents : List UInt8
  bounded : contents.length < 2 ^ 64

/-- The size of the bytes as a `size_t`, which the bound keeps from wrapping. -/
def Bytes.size (bytes : Bytes) : UInt64 := UInt64.ofNat bytes.contents.length

/-- The size is the number of the bytes. -/
@[simp] theorem Bytes.toNat_size (bytes : Bytes) : bytes.size.toNat = bytes.contents.length :=
  UInt64.toNat_ofNat_of_lt bytes.bounded

/-- A `std::ifstream` on a file, with its position and its state. -/
structure InputStream where
  contents : List UInt8
  position : ℕ
  good : Bool

namespace InputStream

/-- A stream on the contents of a file that was just opened, at its beginning. -/
def openFile (contents : List UInt8) : InputStream := ⟨contents, 0, true⟩

/-- `read(_, count)`: the bytes read, `gcount` of them, and the stream.  A short read ends its
    good state, and a stream that is not good reads nothing. -/
def read (self : InputStream) (count : ℕ) : List UInt8 × InputStream :=
  if self.good then
    let bytes := (self.contents.drop self.position).take count
    (bytes, { self with
      position := self.position + bytes.length
      good := decide (bytes.length = count) })
  else ([], self)

/-- A read that the file can serve. -/
theorem read_of_le {contents : List UInt8} {position count : ℕ}
    (h : position + count ≤ contents.length) :
    (⟨contents, position, true⟩ : InputStream).read count =
      ((contents.drop position).take count, ⟨contents, position + count, true⟩) := by
  have hlength : ((contents.drop position).take count).length = count := by
    rw [List.length_take, List.length_drop]
    omega
  simp [read, hlength]

/-- The test `peek() == eof()`, which holds at the end and for a stream that is not good. -/
def peekEof (self : InputStream) : Bool :=
  !self.good || decide (self.contents.length ≤ self.position)

/-- The calls `clear()` and `seekg(0)`, after which the file is read from its start. -/
def rewind (self : InputStream) : InputStream := { self with position := 0, good := true }

end InputStream

/-! ### Tensors in buffers -/

/-- A backend buffer in the address space. -/
structure BackendBuffer where
  base : UInt64
  size : UInt64
  /-- `ggml_backend_buffer_is_host` -/
  isHost : Bool
  noWrap : base.toNat + size.toNat < 2 ^ 64

/-- A tensor; `deserialize_tensor` asserts that it lies in its buffer. -/
structure Tensor where
  data : UInt64
  /-- `ggml_nbytes` -/
  nbytes : UInt64
  buffer : BackendBuffer
  inBuffer : buffer.base.toNat ≤ data.toNat ∧
    data.toNat + nbytes.toNat ≤ buffer.base.toNat + buffer.size.toNat

/-- `rpc_tensor`: the address of the data, and what else describes the tensor. -/
structure RpcTensor (ρ : Type) where
  data : UInt64
  rest : ρ

/-- The request `rpc_msg_set_tensor_hash_req`, which names a tensor and the hash of its data. -/
structure SetTensorHashReq (ρ : Type) where
  tensor : RpcTensor ρ
  offset : UInt64
  hash : UInt64

/-- The cache directory: the saved files by their hash, and the temporary files of saves. -/
structure CacheDir where
  files : UInt64 → Option Bytes
  partials : UInt64 → Option Bytes

/-- The file of a hash is deleted from the directory, and the others stay. -/
def CacheDir.remove (dir : CacheDir) (hash : UInt64) : CacheDir :=
  { dir with files := Function.update dir.files hash none }

/-- What a request reads and writes: the cache, the memory and the counters. -/
structure CacheServer where
  cacheDir : Option CacheDir
  memory : Memory UInt8
  /-- `sc_cache_hit`, `sc_cache_stored`, `sc_cache_rejected` -/
  hit : UInt64
  stored : UInt64
  rejected : UInt64

/-- How `set_tensor_hash` ends, by its answer and what led to it. -/
inductive HashOutcome
  /-- `result = 0`: there is no such file -/
  | miss
  /-- `result = 1` -/
  | hit
  /-- `result = 0`: the file was discarded -/
  | rejected (why : String)
  /-- the function returns `false`: the request names no tensor -/
  | failed
deriving DecidableEq

/-- The `result` of the response, if there is a response. -/
def HashOutcome.result : HashOutcome → Option ℕ
  | .hit => some 1
  | .miss | .rejected _ => some 0
  | .failed => none

section

variable {ρ : Type} (fnv : Fnv) (deserializeTensor : RpcTensor ρ → Option Tensor)

/-! ### `set_tensor_hash` -/

/-- The loop that hashes the file in chunks, up to the first short read. -/
def verifyLoop (chunkSize size : ℕ) : ℕ → InputStream → UInt64 → ℕ → UInt64 × ℕ × InputStream
  | 0, ifs, hash, seen => (hash, seen, ifs)
  | fuel + 1, ifs, hash, seen =>
      if seen < size then
        let want := min chunkSize (size - seen)
        let (chunk, ifs) := ifs.read want
        if chunk.length ≠ want then (hash, seen, ifs)
        else verifyLoop chunkSize size fuel ifs (fnv.hash chunk hash) (seen + want)
      else (hash, seen, ifs)

/-- The first pass over the file: its hash, how much was seen, and the stream.  Every round
    reads at least a byte, so `size` bounds the rounds. -/
def verify (ifs : InputStream) (size : ℕ) : UInt64 × ℕ × InputStream :=
  verifyLoop fnv (min size (2 ^ 20)) size size ifs fnv.basis 0

/-- The loop, from any round on: what was read so far is a prefix of the file, and its hash
    is the accumulator. -/
theorem verifyLoop_eq (contents : List UInt8) {chunkSize fuel seen : ℕ}
    (hchunk : 0 < contents.length → 0 < chunkSize) (hseen : seen ≤ contents.length)
    (hfuel : contents.length - seen ≤ fuel) :
    verifyLoop fnv chunkSize contents.length fuel ⟨contents, seen, true⟩
        (fnv.hash (contents.take seen) fnv.basis) seen =
      (fnv.hash contents fnv.basis, contents.length, ⟨contents, contents.length, true⟩) := by
  induction fuel generalizing seen with
  | zero =>
    have hend : seen = contents.length := by omega
    rw [verifyLoop, hend, List.take_length]
  | succ fuel ih =>
    rw [verifyLoop]
    split
    case isFalse h =>
      have hend : seen = contents.length := by omega
      rw [hend, List.take_length]
    case isTrue h =>
      have hpos : 0 < chunkSize := hchunk (by omega)
      have hwant : seen + min chunkSize (contents.length - seen) ≤ contents.length := by omega
      have hlength : ((contents.drop seen).take (min chunkSize (contents.length - seen))).length =
          min chunkSize (contents.length - seen) := by
        rw [List.length_take, List.length_drop]
        omega
      simp only [InputStream.read_of_le hwant, hlength, ne_eq, not_true, if_false]
      -- the chunk extends the prefix
      rw [← fnv.hash_append, ← List.take_add]
      exact ih hwant (by omega)

/-- **The chunked pass** sees the whole file, ends at its end and computes its hash. -/
theorem verify_eq (contents : List UInt8) :
    verify fnv (.openFile contents) contents.length =
      (fnv.hash contents fnv.basis, contents.length, ⟨contents, contents.length, true⟩) :=
  verifyLoop_eq fnv contents (by omega) (Nat.zero_le _) (by omega)

/-- The first bounds check fails: the bytes do not fit the buffer. -/
def outsideBuffer (tensor : Tensor) (data offset size : UInt64) : Bool :=
  let p0 := tensor.buffer.base
  let p1 := p0 + tensor.buffer.size
  decide (data + offset < p0) || decide (data + offset ≥ p1) || decide (size > p1 - data - offset)

/-- The second bounds check fails: the bytes are more than what is left of the tensor. -/
def outsideTensor (tensor : Tensor) (offset size : UInt64) : Bool :=
  decide (offset > tensor.nbytes) || decide (size > tensor.nbytes - offset)

/-- The region of `size` bytes from `offset` on lies in the tensor, and the tensor's bytes from
    there on lie in its buffer. -/
structure Tensor.Fits (tensor : Tensor) (offset size : ℕ) : Prop where
  inTensor : offset + size ≤ tensor.nbytes.toNat
  inBuffer : tensor.data.toNat + offset + size ≤
    tensor.buffer.base.toNat + tensor.buffer.size.toNat
  inside : tensor.data.toNat + offset <
    tensor.buffer.base.toNat + tensor.buffer.size.toNat

/-- **The bounds checks.**  Although every sum and difference in them may wrap, together they
    let through exactly the regions that fit. -/
theorem fits_iff (tensor : Tensor) (offset size : UInt64) :
    (outsideBuffer tensor tensor.data offset size = false ∧
      outsideTensor tensor offset size = false) ↔
      tensor.Fits offset.toNat size.toNat := by
  have hbase := tensor.inBuffer.1
  have hend := tensor.inBuffer.2
  have hwrap := tensor.buffer.noWrap
  have hoffset := offset.toNat_lt
  have hsize := size.toNat_lt
  simp only [outsideBuffer, outsideTensor, Bool.or_eq_false_iff, decide_eq_false_iff_not,
    UInt64.lt_iff_toNat_lt, UInt64.le_iff_toNat_le, ge_iff_le, gt_iff_lt, UInt64.toNat_add,
    UInt64.toNat_sub]
  constructor
  · rintro ⟨⟨⟨h1, h2⟩, h3⟩, h4, h5⟩
    constructor <;> omega
  · rintro ⟨h1, h2, h3⟩
    refine ⟨⟨⟨?_, ?_⟩, ?_⟩, ?_, ?_⟩ <;> omega

/-- The address `(char *) tensor->data + offset`. -/
def Tensor.address (tensor : Tensor) (offset : UInt64) : ℕ := tensor.data.toNat + offset.toNat

/-- The `reject` closure: the file is removed and counted. -/
def reject (server : CacheServer) (dir : CacheDir) (hash : UInt64) (why : String) :
    CacheServer × HashOutcome :=
  ({ server with
      cacheDir := some (dir.remove hash)
      rejected := server.rejected + 1 }, .rejected why)

/-- The handler `rpc_server::set_tensor_hash`, which looks for a file and checks it against the
    tensor. -/
def setTensorHash (server : CacheServer) (request : SetTensorHashReq ρ) :
    CacheServer × HashOutcome :=
  match server.cacheDir with
  | none => (server, .miss)
  | some dir =>
  match dir.files request.hash with
  | none => (server, .miss)
  | some file =>
  match deserializeTensor request.tensor with
  | none => (server, .failed)
  | some tensor =>
    if outsideBuffer tensor request.tensor.data request.offset file.size then
      reject server dir request.hash "size does not fit the tensor"
    else if outsideTensor tensor request.offset file.size then
      reject server dir request.hash "larger than its tensor"
    else
      let size := file.contents.length
      let (hash, seen, ifs) := verify fnv (.openFile file.contents) size
      if seen ≠ size ∨ !ifs.peekEof ∨ hash ≠ request.hash then
        reject server dir request.hash "contents do not match the hash"
      else
        let (bytes, _) := ifs.rewind.read size
        let installed :=
          { server with memory := server.memory.write (tensor.address request.offset) bytes }
        if tensor.buffer.isHost then
          -- read straight into the tensor
          if bytes.length ≠ size then
            reject installed dir request.hash "changed while being read"
          else ({ installed with hit := server.hit + file.size }, .hit)
        else if bytes.length ≠ size ∨ fnv.hash bytes fnv.basis ≠ request.hash then
          reject server dir request.hash "changed while being read"
        else ({ installed with hit := server.hit + file.size }, .hit)

/-! ### `set_tensor` and the client's exchange -/

/-- How saving a file went: whether all was written, and whether the rename succeeded. -/
structure SaveResult where
  written : Bool
  renamed : Bool

/-- The save path of `set_tensor`: a temporary file, renamed when it is complete. -/
def save (server : CacheServer) (data : Bytes) (io : SaveResult) : CacheServer :=
  match server.cacheDir with
  | none => server
  | some dir =>
      let hash := fnv.hash data.contents fnv.basis
      let partials := Function.update dir.partials hash none
      if io.written && io.renamed then
        { server with
          cacheDir := some ⟨Function.update dir.files hash (some data), partials⟩
          stored := server.stored + data.size }
      else { server with cacheDir := some ⟨dir.files, partials⟩ }

/-- `rpc_server::set_tensor`; `sanitized` is the outcome of the checks before the save path. -/
def setTensor (server : CacheServer) (tensor : RpcTensor ρ) (offset : UInt64) (data : Bytes)
    (cacheFlag sanitized : Bool) (io : SaveResult) : CacheServer × Bool :=
  match deserializeTensor tensor with
  | none => (server, false)
  | some tensor =>
      if !sanitized then (server, false)
      else
        let server := if cacheFlag then save fnv server data io else server
        ({ server with
            memory := server.memory.write (tensor.address offset) data.contents }, true)

/-- The client offers the hash of its data first and sends the data when the answer is `0`.
    Returns whether the exchange went through. -/
def exchange (server : CacheServer) (tensor : RpcTensor ρ) (offset : UInt64) (data : Bytes)
    (cacheFlag sanitized : Bool) (io : SaveResult) : CacheServer × Bool :=
  let request : SetTensorHashReq ρ := ⟨tensor, offset, fnv.hash data.contents fnv.basis⟩
  let (server, outcome) := setTensorHash fnv deserializeTensor server request
  match outcome.result with
  | none => (server, false)
  | some 0 => setTensor fnv deserializeTensor server tensor offset data cacheFlag sanitized io
  | some _ => (server, true)

/-! ### How a hash request ends -/

/-- The state after a hit: the bytes of the file are in the tensor, and counted. -/
def CacheServer.install (server : CacheServer) (tensor : Tensor) (offset : UInt64)
    (file : Bytes) : CacheServer :=
  { server with
    memory := server.memory.write (tensor.address offset) file.contents
    hit := server.hit + file.size }

/-- The state after a rejection: the file is gone, and counted. -/
def CacheServer.discard (server : CacheServer) (dir : CacheDir) (hash : UInt64) : CacheServer :=
  { server with
    cacheDir := some (dir.remove hash)
    rejected := server.rejected + 1 }

/-- The file and the tensor that a request is about. -/
structure Reaches (server : CacheServer) (request : SetTensorHashReq ρ) (dir : CacheDir)
    (file : Bytes) (tensor : Tensor) : Prop where
  cacheDir : server.cacheDir = some dir
  file : dir.files request.hash = some file
  tensor : deserializeTensor request.tensor = some tensor

/-- What makes a file an answer: it fits and has the hash it is named by. -/
def Accepts (request : SetTensorHashReq ρ) (file : Bytes) (tensor : Tensor) : Prop :=
  tensor.Fits request.offset.toNat file.contents.length ∧
    fnv.hash file.contents fnv.basis = request.hash

variable {fnv deserializeTensor} {server : CacheServer} {request : SetTensorHashReq ρ}
  {dir : CacheDir} {file : Bytes} {tensor : Tensor}

/-- A request reaches one file and one tensor. -/
theorem Reaches.unique {dir' : CacheDir} {file' : Bytes} {tensor' : Tensor}
    (h : Reaches deserializeTensor server request dir file tensor)
    (h' : Reaches deserializeTensor server request dir' file' tensor') :
    dir = dir' ∧ file = file' ∧ tensor = tensor' := by
  obtain rfl := Option.some.inj (h.cacheDir.symm.trans h'.cacheDir)
  have hfile := Option.some.inj (h.file.symm.trans h'.file)
  have htensor := Option.some.inj (h.tensor.symm.trans h'.tensor)
  exact ⟨rfl, hfile, htensor⟩

/-- The second pass reads the whole file again. -/
theorem rewind_read (contents : List UInt8) (position : ℕ) (good : Bool) :
    ((⟨contents, position, good⟩ : InputStream).rewind.read contents.length).1 = contents := by
  have hall : 0 + contents.length ≤ contents.length := by omega
  simp only [InputStream.rewind, InputStream.read_of_le hall, List.drop_zero, List.take_length]

/-- An acceptable file is installed, by either path. -/
theorem setTensorHash_of_accepts (h : Reaches deserializeTensor server request dir file tensor)
    (hdata : tensor.data = request.tensor.data) (haccept : Accepts fnv request file tensor) :
    setTensorHash fnv deserializeTensor server request =
      (server.install tensor request.offset file, .hit) := by
  obtain ⟨hfits, hhash⟩ := haccept
  rw [← file.toNat_size] at hfits
  obtain ⟨hbuffer, htensor⟩ := (fits_iff tensor request.offset file.size).mpr hfits
  rw [hdata] at hbuffer
  have hread := rewind_read file.contents file.contents.length true
  simp only [setTensorHash, h.cacheDir, h.file, h.tensor, hbuffer, htensor, verify_eq, hhash]
  simp [InputStream.peekEof, hread, hhash, CacheServer.install, h.cacheDir]

/-- Any other file is discarded, and nothing else happens. -/
theorem setTensorHash_of_not_accepts
    (h : Reaches deserializeTensor server request dir file tensor)
    (hdata : tensor.data = request.tensor.data) (hreject : ¬ Accepts fnv request file tensor) :
    ∃ why, setTensorHash fnv deserializeTensor server request =
      (server.discard dir request.hash, .rejected why) := by
  have hfits := fits_iff tensor request.offset file.size
  rw [hdata, file.toNat_size] at hfits
  simp only [setTensorHash, h.cacheDir, h.file, h.tensor]
  split
  · exact ⟨_, rfl⟩
  split
  · exact ⟨_, rfl⟩
  -- both bounds hold, so it is the hash that differs
  rename_i hbuffer htensor
  have hhash : fnv.hash file.contents fnv.basis ≠ request.hash := fun hhash =>
    hreject ⟨hfits.mp ⟨by simpa using hbuffer, by simpa using htensor⟩, hhash⟩
  rw [verify_eq]
  simp only [hhash, ne_eq, not_false_eq_true, or_true, if_true]
  exact ⟨_, rfl⟩

variable (fnv) in
/-- **Every way a request can end**, with the conditions under which it does. -/
theorem setTensorHash_cases (server : CacheServer) (request : SetTensorHashReq ρ)
    (hdata : ∀ t tensor, deserializeTensor t = some tensor → tensor.data = t.data) :
    (∃ dir file tensor, Reaches deserializeTensor server request dir file tensor ∧
      Accepts fnv request file tensor ∧
      setTensorHash fnv deserializeTensor server request =
        (server.install tensor request.offset file, .hit)) ∨
    (∃ dir file tensor, Reaches deserializeTensor server request dir file tensor ∧
      ¬ Accepts fnv request file tensor ∧ ∃ why,
      setTensorHash fnv deserializeTensor server request =
        (server.discard dir request.hash, .rejected why)) ∨
    ((∀ dir file tensor, ¬ Reaches deserializeTensor server request dir file tensor) ∧
      ∃ outcome, (outcome = .miss ∨ outcome = .failed) ∧
      setTensorHash fnv deserializeTensor server request = (server, outcome)) := by
  by_cases h : ∃ dir file tensor, Reaches deserializeTensor server request dir file tensor
  · obtain ⟨dir, file, tensor, h⟩ := h
    have htensor := hdata _ _ h.tensor
    by_cases haccept : Accepts fnv request file tensor
    · exact .inl ⟨dir, file, tensor, h, haccept, setTensorHash_of_accepts h htensor haccept⟩
    · exact .inr (.inl ⟨dir, file, tensor, h, haccept,
        setTensorHash_of_not_accepts h htensor haccept⟩)
  · refine .inr (.inr ⟨fun dir file tensor hr => h ⟨dir, file, tensor, hr⟩, ?_⟩)
    -- one of the three lookups fails
    unfold setTensorHash
    split
    · exact ⟨_, .inl rfl, rfl⟩
    split
    · exact ⟨_, .inl rfl, rfl⟩
    split
    · exact ⟨_, .inr rfl, rfl⟩
    rename_i hdir _ file hfile _ tensor htensor
    exact absurd ⟨_, file, tensor, hdir, hfile, htensor⟩ h

section

variable (hdata : ∀ t tensor, deserializeTensor t = some tensor → tensor.data = t.data)
  {server' : CacheServer} {outcome : HashOutcome}
  (h : setTensorHash fnv deserializeTensor server request = (server', outcome))

include hdata h

/-- The answer is `1` exactly for an acceptable file. -/
theorem result_eq_one_iff : outcome.result = some 1 ↔ ∃ dir file tensor,
    Reaches deserializeTensor server request dir file tensor ∧ Accepts fnv request file tensor := by
  obtain ⟨dir, file, tensor, hreach, haccept, heq⟩ | ⟨dir, file, tensor, hreach, hnot, why, heq⟩ |
      ⟨hnone, outcome', houtcome, heq⟩ := setTensorHash_cases fnv server request hdata
  · obtain ⟨rfl, rfl⟩ := Prod.mk.inj (heq.symm.trans h)
    exact iff_of_true rfl ⟨dir, file, tensor, hreach, haccept⟩
  · obtain ⟨rfl, rfl⟩ := Prod.mk.inj (heq.symm.trans h)
    refine iff_of_false (by simp [HashOutcome.result]) ?_
    rintro ⟨dir', file', tensor', hreach', haccept'⟩
    obtain ⟨rfl, rfl, rfl⟩ := hreach.unique hreach'
    exact hnot haccept'
  · obtain ⟨rfl, rfl⟩ := Prod.mk.inj (heq.symm.trans h)
    refine iff_of_false (by rcases houtcome with rfl | rfl <;> simp [HashOutcome.result]) ?_
    rintro ⟨dir, file, tensor, hreach, -⟩
    exact hnone dir file tensor hreach

/-- When the handler answers one, the file was read as a whole and installed into the tensor. -/
theorem Reaches.installed (hreach : Reaches deserializeTensor server request dir file tensor)
    (hone : outcome.result = some 1) : server' = server.install tensor request.offset file := by
  obtain ⟨dir', file', tensor', hreach', haccept⟩ := (result_eq_one_iff hdata h).mp hone
  obtain ⟨rfl, rfl, rfl⟩ := hreach.unique hreach'
  rw [setTensorHash_of_accepts hreach (hdata _ _ hreach.tensor) haccept] at h
  exact (congrArg Prod.fst h).symm

/-- When the handler does not answer one, it answers zero, and nothing was installed; a file that
    did not fit is deleted. -/
theorem Reaches.discarded (hreach : Reaches deserializeTensor server request dir file tensor)
    (hnot : outcome.result ≠ some 1) :
    outcome.result = some 0 ∧ server' = server.discard dir request.hash := by
  have hreject : ¬ Accepts fnv request file tensor := fun haccept =>
    hnot ((result_eq_one_iff hdata h).mpr ⟨dir, file, tensor, hreach, haccept⟩)
  obtain ⟨why, heq⟩ := setTensorHash_of_not_accepts hreach (hdata _ _ hreach.tensor) hreject
  obtain ⟨rfl, rfl⟩ := Prod.mk.inj (heq.symm.trans h)
  exact ⟨rfl, rfl⟩

/-- Without a hit the memory is untouched. -/
theorem memory_of_no_hit (hnot : outcome.result ≠ some 1) : server'.memory = server.memory := by
  obtain ⟨dir, file, tensor, hreach, -, -⟩ | ⟨dir, file, tensor, hreach, -, -⟩ | ⟨-, _, -, heq⟩ :=
    setTensorHash_cases fnv server request hdata
  · rw [(hreach.discarded hdata h hnot).2]
    rfl
  · rw [(hreach.discarded hdata h hnot).2]
    rfl
  · obtain ⟨rfl, -⟩ := Prod.mk.inj (heq.symm.trans h)
    rfl

end

/-- Saving touches the cache directory only, and never the memory of a tensor. -/
@[simp] theorem save_memory (server : CacheServer) (data : Bytes) (io : SaveResult) :
    (save fnv server data io).memory = server.memory := by
  unfold save
  split
  · rfl
  · dsimp only
    split <;> rfl

/-- `set_tensor`, when it succeeds, writes the data at the address of the tensor. -/
theorem setTensor_memory {t : RpcTensor ρ} {offset : UInt64} {data : Bytes}
    {cacheFlag sanitized : Bool} {io : SaveResult} {server' : CacheServer}
    (h : setTensor fnv deserializeTensor server t offset data cacheFlag sanitized io =
      (server', true)) :
    ∃ tensor, deserializeTensor t = some tensor ∧
      server'.memory = server.memory.write (tensor.address offset) data.contents := by
  unfold setTensor at h
  cases htensor : deserializeTensor t with
  | none => simp [htensor] at h
  | some tensor =>
    refine ⟨tensor, rfl, ?_⟩
    rw [htensor] at h
    cases sanitized with
    | false => simp at h
    | true =>
      have hserver : _ = server' := congrArg Prod.fst h
      rw [← hserver]
      cases cacheFlag with
      | false => rfl
      | true => simp

/-- No file that the cache would serve for `data` differs from it. -/
def NoCollision (fnv : Fnv) (server : CacheServer) (data : Bytes) : Prop :=
  ∀ dir file, server.cacheDir = some dir →
    dir.files (fnv.hash data.contents fnv.basis) = some file →
    fnv.hash file.contents fnv.basis = fnv.hash data.contents fnv.basis →
    file.contents = data.contents

/-- **The exchange**: whether the cache had the data or the client sent it, the data is where
    it belongs. -/
theorem exchange_memory {t : RpcTensor ρ} {offset : UInt64} {data : Bytes}
    {cacheFlag sanitized : Bool} {io : SaveResult} {server' : CacheServer}
    (hdata : ∀ t tensor, deserializeTensor t = some tensor → tensor.data = t.data)
    (hcollision : NoCollision fnv server data)
    (h : exchange fnv deserializeTensor server t offset data cacheFlag sanitized io =
      (server', true)) :
    ∃ tensor, deserializeTensor t = some tensor ∧
      server'.memory = server.memory.write (tensor.address offset) data.contents := by
  obtain ⟨dir, file, tensor, hreach, haccept, heq⟩ | ⟨dir, file, tensor, -, -, why, heq⟩ |
      ⟨-, outcome, houtcome, heq⟩ :=
    setTensorHash_cases fnv server
      ⟨t, offset, fnv.hash data.contents fnv.basis⟩ hdata
  · -- a hit: the file is the data
    have hsame := hcollision dir file hreach.cacheDir hreach.file haccept.2
    refine ⟨tensor, hreach.tensor, ?_⟩
    simp only [exchange, heq, HashOutcome.result] at h
    have hserver : _ = server' := congrArg Prod.fst h
    rw [← hserver, ← hsame]
    rfl
  · -- a rejection: the data is sent
    simp only [exchange, heq, HashOutcome.result] at h
    obtain ⟨tensor, htensor, hmemory⟩ := setTensor_memory h
    exact ⟨tensor, htensor, hmemory⟩
  · rcases houtcome with rfl | rfl
    · simp only [exchange, heq, HashOutcome.result] at h
      exact setTensor_memory h
    · simp [exchange, heq, HashOutcome.result] at h

end

/-! ### The law of the cache -/

/-- FNV-1a with 64 bits, as the source computes it. -/
def fnv1a : Fnv := ⟨0xcbf29ce484222325, fun hash byte => (hash ^^^ byte.toUInt64) * 0x100000001b3⟩

/-- One tensor of eight bytes at `0x1000`, in a buffer of sixty-four. -/
def oneTensor (t : RpcTensor Unit) : Option Tensor :=
  if h : t.data = 0x1000 then
    some ⟨t.data, 8, ⟨0x1000, 64, true, by decide⟩, by rw [h]; decide⟩
  else none

/-- A file of four bytes, as the cache of the example holds it. -/
def fourBytes : Bytes := ⟨[1, 2, 3, 4], by decide⟩

/-- A cache with one file, stored under the hash of its contents. -/
def oneFile : CacheServer where
  cacheDir := some
    { files := Function.update (fun _ => none) (fnv1a.hash fourBytes.contents fnv1a.basis) fourBytes
      partials := fun _ => none }
  memory := fun _ => 0
  hit := 0
  stored := 0
  rejected := 0

end ShareCompute.Native
