import ShareCompute.Library.ChunkedSocket
import ShareCompute.Simulation.InferenceWire

namespace ShareCompute.Simulation

open ShareCompute.Library

/-!
# Activations over a socket

`recv_activation` of `inference_pipeline_lib.py` and of `portable_dual_topology_lib.py`, as it
reads from a socket by `_recv_exact`.

* `Codec.recvActivation_carries` — it reads the next frame of the stream, however it is split.
* `activation_codec` — what one side encodes is what the other side receives.
-/

/-- Why `recv_activation` gives no message, where it gives none. -/
inductive Stop
  /-- it still waits -/
  | waiting
  /-- it returns `None` -/
  | returnedNone
  | raised (error : FrameError)

/-- The call `_recv_exact(sock, n, deadline)`, with what it leaves in the socket. -/
def recvExact (n : ℕ) (sock : Socket) : Except Stop Bytes × Socket :=
  match receive n [] sock with
  | (.waiting, sock) => (.error .waiting, sock)
  | (.nothing, sock) => (.error .returnedNone, sock)
  | (.bytes buf, sock) => (.ok buf, sock)

/-- Goes on with what was read, or stops. -/
def andThen {α β : Type} (read : Except Stop α × Socket)
    (next : α → Socket → Except Stop β × Socket) : Except Stop β × Socket :=
  match read with
  | (.error stop, sock) => (.error stop, sock)
  | (.ok value, sock) => next value sock

/-- A call that got its value hands it to the next one, with what is left of the socket. -/
@[simp] theorem andThen_ok {α β : Type} (value : α) (sock : Socket)
    (next : α → Socket → Except Stop β × Socket) :
    andThen (.ok value, sock) next = next value sock := rfl

/-- A call that has stopped is not followed by another. -/
@[simp] theorem andThen_error {α β : Type} (stop : Stop) (sock : Socket)
    (next : α → Socket → Except Stop β × Socket) :
    andThen (.error stop, sock) next = (.error stop, sock) := rfl

namespace Codec

variable (codec : Codec) (outside : Outside)

/-- The call `recv_activation(sock, deadline, max_payload_bytes=...)`, field by field of the
    frame. -/
def recvActivation (maxPayloadBytes : Option ℤ) (sock : Socket) :
    Except Stop ActivationMsg × Socket :=
  andThen (recvExact 28 sock) fun header sock =>
    match codec.headerError maxPayloadBytes header with
    | some error => (.error (.raised error), sock)
    | none =>
        andThen (recvExact 2 sock) fun elen sock =>
          andThen (recvExact (unpackBE elen) sock) fun epochBytes sock =>
            match decodeUtf8 epochBytes with
            | none => (.error (.raised .undecodable), sock)
            | some epoch =>
                if outside.epochHash32 epoch ≠ unpackBE ((header.drop 4).take 4) then
                  (.error (.raised .hashMismatch), sock)
                else
                  andThen (recvExact (declared header) sock) fun payload sock =>
                    (.ok ⟨epoch, unpackBE ((header.drop 8).take 4),
                      unpackBE ((header.drop 12).take 4), unpackBE ((header.drop 16).take 4),
                      payload⟩, sock)

/-- The results of `calls` calls, one after the other. -/
def recvActivations (maxPayloadBytes : Option ℤ) :
    ℕ → Socket → List (Except Stop ActivationMsg) × Socket
  | 0, sock => ([], sock)
  | calls + 1, sock =>
      let (result, sock) := codec.recvActivation outside maxPayloadBytes sock
      let (results, sock) := recvActivations maxPayloadBytes calls sock
      (result :: results, sock)

end Codec

/-! ### However the stream is split -/

section

variable {sock : Socket} {stream : Bytes}

/-- When enough bytes arrive, the call returns them and leaves the rest of the stream on the
    socket. -/
theorem recvExact_carries (h : Carries sock stream) {n : ℕ} {bytes rest : Bytes}
    (htake : takeBytes n stream = some (bytes, rest)) :
    ∃ sock', recvExact n sock = (.ok bytes, sock') ∧ Carries sock' rest := by
  obtain ⟨sock', hreceive, hrest⟩ := receive_of_takeBytes h htake
  exact ⟨sock', by rw [recvExact, hreceive], hrest⟩

/-- When too few bytes arrive, the call waits for more and takes all there are. -/
theorem recvExact_waiting (h : Carries sock stream) {n : ℕ} (htake : takeBytes n stream = none) :
    recvExact n sock = (.error .waiting, []) := by
  rw [recvExact, receive_waiting h htake]

namespace Codec

variable (codec : Codec) (outside : Outside) (maxPayloadBytes : Option ℤ)

/-- **A call reads the next frame of the stream**, as it is when all bytes are there at once. -/
theorem recvActivation_carries (h : Carries sock stream) :
    match codec.frame outside maxPayloadBytes stream with
    | .incomplete => (codec.recvActivation outside maxPayloadBytes sock).1 = .error .waiting
    | .raised error =>
      (codec.recvActivation outside maxPayloadBytes sock).1 = .error (.raised error)
    | .message msg rest => ∃ sock',
        codec.recvActivation outside maxPayloadBytes sock = (.ok msg, sock') ∧
          Carries sock' rest := by
  rw [frame]
  unfold recvActivation
  -- the parts of a message in their order: each is complete, or the reader waits for it
  cases hheader : takeBytes 28 stream with
  | none => simp [recvExact_waiting h hheader]
  | some taken =>
    obtain ⟨header, stream₁⟩ := taken
    obtain ⟨sock₁, hsock₁, h₁⟩ := recvExact_carries h hheader
    simp only [hsock₁, andThen_ok]
    cases codec.headerError maxPayloadBytes header with
    | some error => simp
    | none =>
      simp only []
      cases helen : takeBytes 2 stream₁ with
      | none => simp [recvExact_waiting h₁ helen]
      | some taken =>
        obtain ⟨elen, stream₂⟩ := taken
        obtain ⟨sock₂, hsock₂, h₂⟩ := recvExact_carries h₁ helen
        simp only [hsock₂, andThen_ok]
        cases hepoch : takeBytes (unpackBE elen) stream₂ with
        | none => simp [recvExact_waiting h₂ hepoch]
        | some taken =>
          obtain ⟨epochBytes, stream₃⟩ := taken
          obtain ⟨sock₃, hsock₃, h₃⟩ := recvExact_carries h₂ hepoch
          simp only [hsock₃, andThen_ok]
          cases decodeUtf8 epochBytes with
          | none => simp
          | some epoch =>
            simp only []
            by_cases hhash : outside.epochHash32 epoch ≠ unpackBE ((header.drop 4).take 4)
            · simp only [if_pos hhash]
            · simp only [if_neg hhash]
              cases hpayload : takeBytes (declared header) stream₃ with
              | none => simp [recvExact_waiting h₃ hpayload]
              | some taken =>
                obtain ⟨payload, stream₄⟩ := taken
                obtain ⟨sock₄, hsock₄, h₄⟩ := recvExact_carries h₃ hpayload
                exact ⟨sock₄, by rw [hsock₄, andThen_ok], h₄⟩

/-- **A header that is rejected is all that is read.** -/
theorem recvActivation_rejected {header rest : Bytes} {error : FrameError}
    (hlength : header.length = 28) (h : Carries sock (header ++ rest))
    (hheader : codec.headerError maxPayloadBytes header = some error) :
    ∃ sock', codec.recvActivation outside maxPayloadBytes sock = (.error (.raised error), sock') ∧
      Carries sock' rest := by
  obtain ⟨sock', hread, hrest⟩ := recvExact_carries h (takeBytes_append hlength rest)
  refine ⟨sock', ?_, hrest⟩
  rw [recvActivation, hread, andThen_ok]
  simp only [hheader]

/-- A header is rejected that declares too much, whatever else it says. -/
theorem headerError_of_declared {header : Bytes}
    (h : declared header > 64 * 1024 * 1024 ∨
      ∃ budget ∈ maxPayloadBytes, (declared header : ℤ) > budget) :
    ∃ error, codec.headerError maxPayloadBytes header = some error := by
  unfold headerError
  by_cases hmagic : header.take 4 ≠ codec.magic
  · exact ⟨_, if_pos hmagic⟩
  · rw [if_neg hmagic]
    by_cases hlarge : declared header > 64 * 1024 * 1024
    · exact ⟨_, if_pos hlarge⟩
    · rw [if_neg hlarge]
      obtain ⟨budget, hbudget, hexceeds⟩ := h.resolve_left hlarge
      rw [Option.mem_def.mp hbudget]
      exact ⟨_, if_pos hexceeds⟩

/-! ### What is encoded -/

/-- The fields fit, and the receiver has room for the payload. -/
structure Fits (msg : ActivationMsg) : Prop where
  tokenId : msg.tokenId < 2 ^ 32
  rankFrom : 0 ≤ msg.rankFrom ∧ msg.rankFrom < 2 ^ 32
  rankTo : 0 ≤ msg.rankTo ∧ msg.rankTo < 2 ^ 32
  epoch : (utf8 msg.epoch).length ≤ 65535
  payload : msg.payload.length ≤ 64 * 1024 * 1024
  budget : ∀ budget ∈ maxPayloadBytes, (msg.payload.length : ℤ) ≤ budget

/-- A number in the range of a field can be packed. -/
theorem packUnsigned_fits {width : ℕ} {value : ℤ} (hnonneg : 0 ≤ value)
    (hlt : value < 256 ^ width) : ∃ bytes, packUnsigned width value = some bytes := by
  obtain ⟨n, rfl⟩ := Int.eq_ofNat_of_zero_le hnonneg
  exact ⟨_, if_pos (by exact_mod_cast hlt)⟩

/-- The hash of an epoch fits a field of four bytes. -/
theorem epochHash32_lt (epoch : String) : outside.epochHash32 epoch < 256 ^ 4 := by
  have hlt := unpackBE_lt ((outside.sha256 (utf8 epoch)).take 4)
  rw [List.length_take, outside.length_sha256] at hlt
  exact hlt

/-- A message that fits is encoded: `struct.pack` raises for none of its fields. -/
theorem exists_encodeActivation {msg : ActivationMsg} (h : Fits maxPayloadBytes msg) :
    ∃ frame, codec.encodeActivation outside msg = some frame := by
  have hfour : ∀ n : ℕ, n < 2 ^ 32 → ∃ bytes, packUnsigned 4 n = some bytes := fun n hn =>
    packUnsigned_fits (Int.natCast_nonneg n) (by norm_num at hn ⊢; omega)
  have hrank : ∀ r : ℤ, 0 ≤ r ∧ r < 2 ^ 32 → ∃ bytes, packUnsigned 4 r = some bytes := fun r hr =>
    packUnsigned_fits hr.1 (by norm_num at hr ⊢; omega)
  obtain ⟨hash, hhash⟩ := hfour _ (epochHash32_lt outside msg.epoch)
  obtain ⟨tokenId, htokenId⟩ := hfour _ h.tokenId
  obtain ⟨rankFrom, hrankFrom⟩ := hrank _ h.rankFrom
  obtain ⟨rankTo, hrankTo⟩ := hrank _ h.rankTo
  obtain ⟨nbytes, hnbytes⟩ := hfour msg.payload.length (by have := h.payload; omega)
  obtain ⟨reserved, hreserved⟩ := hrank 0 (by norm_num)
  have hepoch := h.epoch
  obtain ⟨elen, helen⟩ : ∃ bytes, packUnsigned 2 (utf8 msg.epoch).length = some bytes :=
    packUnsigned_fits (Int.natCast_nonneg _) (by norm_num; omega)
  exact ⟨_, by
    simp only [encodeActivation, hhash, htokenId, hrankFrom, hrankTo, hnbytes, hreserved, helen,
      Option.bind_eq_bind, Option.bind_some]
    rfl⟩

/-- Messages that fit their fields have frames, so that they can be sent. -/
theorem exists_frames {msgs : List ActivationMsg} (h : ∀ msg ∈ msgs, Fits maxPayloadBytes msg) :
    ∃ frames : List Bytes, msgs.map (codec.encodeActivation outside) = frames.map some := by
  induction msgs with
  | nil => exact ⟨[], rfl⟩
  | cons msg msgs ih =>
    obtain ⟨frame, hframe⟩ :=
      codec.exists_encodeActivation outside maxPayloadBytes (h msg List.mem_cons_self)
    obtain ⟨frames, hframes⟩ := ih fun msg hmsg => h msg (List.mem_cons_of_mem _ hmsg)
    exact ⟨frame :: frames, by rw [List.map_cons, List.map_cons, hframe, hframes]⟩

/-- A call consumes the frame of its message. -/
theorem recvActivation_frame {msg : ActivationMsg} {frame rest : Bytes}
    (hfits : Fits maxPayloadBytes msg) (hframe : codec.encodeActivation outside msg = some frame)
    (h : Carries sock (frame ++ rest)) : ∃ sock',
      codec.recvActivation outside maxPayloadBytes sock = (.ok msg, sock') ∧
        Carries sock' rest := by
  have hcall := codec.recvActivation_carries outside maxPayloadBytes h
  rw [codec.frame_encodeActivation outside hframe hfits.payload hfits.budget] at hcall
  exact hcall

/-- **The calls give the messages back, in their order**, each of them its own frame. -/
theorem recvActivations_frames {msgs : List ActivationMsg} {frames : List Bytes} {rest : Bytes}
    (hfits : ∀ msg ∈ msgs, Fits maxPayloadBytes msg)
    (hframes : msgs.map (codec.encodeActivation outside) = frames.map some)
    (h : Carries sock (frames.flatten ++ rest)) (calls : ℕ) (hcalls : calls ≤ msgs.length) :
    ∃ sock', codec.recvActivations outside maxPayloadBytes calls sock
        = ((msgs.take calls).map .ok, sock') ∧
      Carries sock' ((frames.drop calls).flatten ++ rest) := by
  induction calls generalizing msgs frames sock with
  | zero => exact ⟨sock, rfl, h⟩
  | succ calls ih =>
    cases msgs with
    | nil => simp at hcalls
    | cons msg msgs =>
      cases frames with
      | nil => simp at hframes
      | cons frame frames =>
        obtain ⟨hframe, hframes⟩ := List.cons.inj hframes
        rw [List.flatten_cons, List.append_assoc] at h
        obtain ⟨sock₁, hcall, h₁⟩ := codec.recvActivation_frame outside maxPayloadBytes
          (hfits msg List.mem_cons_self) hframe h
        obtain ⟨sock', hrest, h'⟩ := ih (fun msg hmsg => hfits msg (List.mem_cons_of_mem _ hmsg))
          hframes h₁ (by simpa using hcalls)
        exact ⟨sock', by simp only [recvActivations, hcall, hrest]; rfl, h'⟩

/-- **The frames of one codec are turned away by the other**, at their magic. -/
theorem recvActivation_other (other : Codec) (hne : codec.magic ≠ other.magic)
    {msg : ActivationMsg} {frame rest : Bytes}
    (hframe : codec.encodeActivation outside msg = some frame)
    (h : Carries sock (frame ++ rest)) : ∃ sock',
      other.recvActivation outside maxPayloadBytes sock
          = (.error (.raised (.badMagic codec.magic)), sock') ∧
        Carries sock' (frame.drop 28 ++ rest) := by
  obtain ⟨header, elen, rfl, hlength, hmagic, -⟩ := codec.header_of_encodeActivation outside hframe
  rw [List.append_assoc] at h
  have herror : other.headerError maxPayloadBytes header = some (.badMagic codec.magic) := by
    unfold headerError
    rw [hmagic, if_pos hne]
  rw [← hlength, List.drop_left]
  exact other.recvActivation_rejected outside maxPayloadBytes hlength h herror

end Codec

end

/-- **Activations over a socket.**  Both copies of the codec give back what was encoded, however
    the stream is split; they read no more than the header of a frame that is too large, and
    neither takes a frame of the other. -/
theorem activation_codec (outside : Outside) (maxPayloadBytes : Option ℤ) :
    (∀ codec ∈ [inferenceCodec, portableCodec],
      (∀ msgs : List ActivationMsg, (∀ msg ∈ msgs, Codec.Fits maxPayloadBytes msg) →
        ∃ frames : List Bytes, msgs.map (codec.encodeActivation outside) = frames.map some ∧
          ∀ sock rest, Carries sock (frames.flatten ++ rest) → ∀ calls ≤ msgs.length,
            ∃ sock', codec.recvActivations outside maxPayloadBytes calls sock
                = ((msgs.take calls).map .ok, sock') ∧
              Carries sock' ((frames.drop calls).flatten ++ rest)) ∧
      ∀ sock header rest, header.length = 28 → Carries sock (header ++ rest) →
        (Codec.declared header > 64 * 1024 * 1024 ∨
          ∃ budget ∈ maxPayloadBytes, (Codec.declared header : ℤ) > budget) →
        ∃ error sock', codec.recvActivation outside maxPayloadBytes sock
          = (.error (.raised error), sock') ∧ Carries sock' rest) ∧
    ∀ codec other, (codec, other) ∈
        [(inferenceCodec, portableCodec), (portableCodec, inferenceCodec)] →
      ∀ msg frame sock rest, codec.encodeActivation outside msg = some frame →
        Carries sock (frame ++ rest) → ∃ sock',
          other.recvActivation outside maxPayloadBytes sock
              = (.error (.raised (.badMagic codec.magic)), sock') ∧
            Carries sock' (frame.drop 28 ++ rest) := by
  constructor
  · intro codec _
    constructor
    · -- the frames are read back one by one, and what is behind them stays
      intro msgs hfits
      obtain ⟨frames, hframes⟩ := codec.exists_frames outside maxPayloadBytes hfits
      exact ⟨frames, hframes, fun sock rest h calls hcalls =>
        codec.recvActivations_frames outside maxPayloadBytes hfits hframes h calls hcalls⟩
    · -- a header that declares too much is refused before its payload is read
      intro sock header rest hlength h hdeclared
      obtain ⟨error, herror⟩ := codec.headerError_of_declared maxPayloadBytes hdeclared
      obtain ⟨sock', hcall, hrest⟩ :=
        codec.recvActivation_rejected outside maxPayloadBytes hlength h herror
      exact ⟨error, sock', hcall, hrest⟩
  · -- the frames of one pass have another magic than those of the other
    intro codec other hpair msg frame sock rest hframe h
    have hne : codec.magic ≠ other.magic := by
      rcases List.mem_pair.mp hpair with hpair | hpair
      · obtain ⟨rfl, rfl⟩ := Prod.mk.inj hpair
        decide
      · obtain ⟨rfl, rfl⟩ := Prod.mk.inj hpair
        decide
    exact codec.recvActivation_other outside maxPayloadBytes other hne hframe h

/-- A digest that is always the same. -/
def zeros : Outside where
  str
    | .str text => text
    | .bool flag => if flag then "True" else "False"
    | _ => ""
  float
    | .float q => some q
    | .bool flag => some (some flag.toNat)
    | _ => none
  int
    | .int n => some n
    | .bool flag => some flag.toNat
    | _ => none
  str_str _ := rfl
  int_int _ := rfl
  float_float _ := rfl
  intValueError
    | .str _ => true
    | _ => false
  sha256 _ := List.replicate 32 0
  length_sha256 _ := List.length_replicate
  fakeCompute payload _ _ _ := payload
  length_fakeCompute _ _ _ _ := rfl

/-- A frame of three bytes for the sixth token, between the first two ranks. -/
def threeBytes : ActivationMsg := ⟨"e", 5, 0, 1, [1, 2, 3]⟩

/-- The same message twice, in two chunks that are not the frames. -/
theorem activation_codec_three_bytes : ∃ frame sock',
    inferenceCodec.encodeActivation zeros threeBytes = some frame ∧
    inferenceCodec.recvActivations zeros (some 8) 2
        [.chunk (frame.take 5), .chunk (frame.drop 5 ++ frame)]
      = ([.ok threeBytes, .ok threeBytes], sock') := by
  obtain ⟨frames, hframes, hcalls⟩ := ((activation_codec zeros (some 8)).1 inferenceCodec
    List.mem_cons_self).1 [threeBytes, threeBytes] fun msg hmsg => by
      obtain rfl : msg = threeBytes := by simpa using hmsg
      exact ⟨by decide, by decide, by decide, by decide, by decide, by rintro _ ⟨⟩; decide⟩
  obtain ⟨frame, frame', rfl⟩ : ∃ frame frame', frames = [frame, frame'] := by
    have hlength := congrArg List.length hframes
    simp only [List.length_map] at hlength
    exact List.length_eq_two.mp hlength.symm
  obtain ⟨hframe, hframe'⟩ := List.cons.inj hframes
  obtain rfl : frame = frame' :=
    Option.some.inj (hframe.symm.trans (List.cons.inj hframe').1)
  obtain ⟨header, elen, hparts, hlength, -⟩ :=
    inferenceCodec.header_of_encodeActivation zeros hframe
  have hlong : 28 ≤ frame.length := by
    rw [hparts, List.length_append]
    omega
  have hcarries : Carries [.chunk (frame.take 5), .chunk (frame.drop 5 ++ frame)]
      ([frame, frame].flatten ++ []) := by
    refine ⟨[frame.take 5, frame.drop 5 ++ frame], fun c hc => ?_, rfl, ?_⟩
    · refine List.ne_nil_of_length_pos ?_
      rcases List.mem_pair.mp hc with rfl | rfl
      · rw [List.length_take]
        omega
      · rw [List.length_append]
        omega
    · simp only [List.flatten_cons, List.flatten_nil, List.append_nil]
      rw [← List.append_assoc, List.take_append_drop]
  obtain ⟨sock', hresults, -⟩ := hcalls _ [] hcarries 2 (le_refl _)
  exact ⟨frame, sock', hframe, hresults⟩

end ShareCompute.Simulation
