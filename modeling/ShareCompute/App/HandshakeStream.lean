import ShareCompute.Library.LineSocket

namespace ShareCompute.App

open ShareCompute.Library

/-!
# The iPhone's reader of the handshake

`Stream.read` and `Stream.receiveJSON` in `WorkerModel.swift`, and what the tunnel reads behind
the acknowledgement.  The network is the list of the deliveries that are still to come, each with
the arguments of `receive`'s completion handler; `JSONSerialization` is a parameter.

* `stream`, `ending`, `Chunked` — all the bytes that are delivered, what comes behind them, and
  that the network delivers them in chunks.
* `receiveLoop_spec` — a call takes the next line off the stream, wherever the network splits it.
* `tunnelReads_spec` — the later reads are the rest of the stream.
* `handshake_chunk_independent` — any number of calls, the reads behind them, and the tunnel.
* `receive_behind_long_line` — the calls behind a line that is too long depend on the chunks.
-/

/-! ### The stream -/

variable {ε Value Object : Type}

/-- What a call throws: a `WorkerError`, or an error of the network or of `JSONSerialization`. -/
inductive StreamError (ε : Type)
  | connectionClosed
  | protocolError
  | foundation (error : ε)
deriving DecidableEq

/-- What a call comes to; the network may have nothing for it yet. -/
inductive Outcome (ε α : Type)
  | waiting
  | threw (error : StreamError ε)
  | returned (value : α)
deriving DecidableEq

/-- The arguments of the completion handler of `receive`. -/
structure Received (ε : Type) where
  data : Option Bytes
  complete : Bool
  error : Option ε

/-- The bytes of a delivery, whatever the handler makes of them. -/
def Received.bytes (received : Received ε) : Bytes := received.data.getD []

/-- What the completion handler resumes `read` with. -/
def Received.result (received : Received ε) : Outcome ε (Option Bytes) :=
  match received.error, received.data with
  | some error, _ => .threw (.foundation error)
  | none, some (byte :: data) => .returned (some (byte :: data))
  | none, _ => if received.complete then .returned none else .threw .connectionClosed

/-- The bytes that `read` has been given back, and the deliveries that are still to come. -/
structure Stream (ε : Type) where
  buffered : Bytes
  network : List (Received ε)

/-- `JSONSerialization.jsonObject(with:)`, and the cast `as? [String: Any]` of what it returns. -/
structure JSONSerialization (ε Value Object : Type) where
  jsonObject : Bytes → Except ε Value
  asObject : Value → Option Object

namespace Stream

/-- `read`: the buffer if there is something in it, else the next delivery. -/
def read (self : Stream ε) : Outcome ε (Option Bytes) × Stream ε :=
  match self.buffered, self.network with
  | byte :: data, _ => (.returned (some (byte :: data)), { self with buffered := [] })
  | [], [] => (.waiting, self)
  | [], received :: network => (received.result, { self with network := network })

/-- How many reads can still return something; each of them makes it smaller. -/
def size (self : Stream ε) : ℕ := self.network.length + if self.buffered = [] then 0 else 1

/-- A call of `read` leaves less of the network than it found, so that reading can be an
    induction. -/
theorem size_read {self next : Stream ε} {data : Option Bytes}
    (h : self.read = (.returned data, next)) :
    next.size < self.size := by
  obtain ⟨buffered, network⟩ := self
  cases buffered with
  | cons byte buffered =>
    obtain ⟨-, rfl⟩ := Prod.mk.inj h
    simp [size]
  | nil =>
    cases network with
    | nil => cases h
    | cons received network =>
      obtain ⟨-, rfl⟩ := Prod.mk.inj h
      simp [size]

/-- `guard message.count <= 8192, let value = try … as? [String: Any]` -/
def message (json : JSONSerialization ε Value Object) (message : Bytes) : Outcome ε Object :=
  if message.length ≤ 8192 then
    match json.jsonObject message with
    | .error error => .threw (.foundation error)
    | .ok value =>
      match json.asObject value with
      | some object => .returned object
      | none => .threw .protocolError
  else .threw .protocolError

/-- The loop of `receiveJSON`, which reads until it finds the end of a line. -/
def receiveLoop (json : JSONSerialization ε Value Object) (line : Bytes) (self : Stream ε) :
    Outcome ε Object × Stream ε :=
  match _hread : self.read with
  | (.waiting, self) => (.waiting, self)
  | (.threw error, self) => (.threw error, self)
  | (.returned none, self) => (.threw .connectionClosed, self)
  | (.returned (some data), self) =>
    match splitLine (line ++ data) with
    | some (before, behind) => (message json before, { self with buffered := behind })
    | none =>
      if 8192 < (line ++ data).length then (.threw .protocolError, self)
      else receiveLoop json (line ++ data) self
termination_by self.size
decreasing_by exact size_read _hread

/-- `receiveJSON`, which begins with an empty line. -/
def receiveJSON (json : JSONSerialization ε Value Object) (self : Stream ε) :
    Outcome ε Object × Stream ε :=
  receiveLoop json [] self

/-- What `while let data = try await remote.read()` in `tunnel` is given, and how it ends. -/
def tunnelReads (self : Stream ε) : List Bytes × Outcome ε Unit :=
  match _hread : self.read with
  | (.waiting, _) => ([], .waiting)
  | (.threw error, _) => ([], .threw error)
  | (.returned none, _) => ([], .returned ())
  | (.returned (some data), self) =>
    let (reads, ended) := tunnelReads self
    (data :: reads, ended)
termination_by self.size
decreasing_by exact size_read _hread

/-- What `calls` calls of `receiveJSON` come to; one that waits is the last, one that throws is
    not. -/
def receiveCalls (json : JSONSerialization ε Value Object) :
    ℕ → Stream ε → List (Outcome ε Object) × Stream ε
  | 0, self => ([], self)
  | calls + 1, self =>
    match self.receiveJSON json with
    | (.waiting, self) => ([.waiting], self)
    | (outcome, self) =>
      let (outcomes, self) := receiveCalls json calls self
      (outcome :: outcomes, self)

/-- The laptop's side of `tunnel`, when it is connected and has sent its hello: what
    `local.write` is given, and how the loop ends. -/
def tunnel (json : JSONSerialization ε Value Object) (isOk : Object → Bool) (remote : Stream ε) :
    Outcome ε (List Bytes × Outcome ε Unit) :=
  match remote.receiveJSON json with
  | (.waiting, _) => .waiting
  | (.threw error, _) => .threw error
  | (.returned ack, remote) =>
    if isOk ack then .returned remote.tunnelReads else .threw .protocolError

/-! ### What is still to come -/

/-- All the bytes that the network delivers. -/
def arriving (network : List (Received ε)) : Bytes := network.flatMap Received.bytes

/-- **The stream**: what is buffered and every byte that is still delivered. -/
def stream (self : Stream ε) : Bytes := self.buffered ++ arriving self.network

/-- What the first delivery without bytes says, or that there is none yet. -/
def endOf : List (Received ε) → Outcome ε Unit
  | [] => .waiting
  | received :: network =>
    if received.bytes = [] then
      match received.error with
      | some error => .threw (.foundation error)
      | none => if received.complete then .returned () else .threw .connectionClosed
    else endOf network

/-- How the stream ends for its reader: by its end, by an error, or by a wait without end. -/
def ending (self : Stream ε) : Outcome ε Unit := endOf self.network

/-- The deliveries are chunks of the stream: bytes come without an error, and none come behind a
    delivery that has none. -/
def InChunks : List (Received ε) → Prop
  | [] => True
  | received :: network =>
    if received.bytes = [] then arriving network = []
    else received.error = none ∧ InChunks network

/-- The network delivers the stream in chunks. -/
def Chunked (self : Stream ε) : Prop := InChunks self.network

/-! ### What is read of it -/

/-- The bytes that reads of the network return, and what the read behind them comes to. -/
def brings : List (Received ε) → Bytes × Outcome ε Unit
  | [] => ([], .waiting)
  | received :: network =>
    match received.result with
    | .waiting => ([], .waiting)
    | .threw error => ([], .threw error)
    | .returned none => ([], .returned ())
    | .returned (some data) => (data ++ (brings network).1, (brings network).2)

/-- What can be read of the stream: what is buffered, and what the network brings. -/
def readable (self : Stream ε) : Bytes :=
  self.buffered ++ (brings self.network).1

/-- What the read behind it comes to. -/
def readEnd (self : Stream ε) : Outcome ε Unit := (brings self.network).2

/-- What the handler does with a delivery, by its bytes and its error. -/
theorem result_eq (received : Received ε) :
    received.result =
      match received.error with
      | some error => .threw (.foundation error)
      | none =>
        if received.bytes = [] then
          if received.complete then .returned none else .threw .connectionClosed
        else .returned (some received.bytes) := by
  obtain ⟨data, complete, error⟩ := received
  rcases error with _ | error
  · rcases data with _ | _ | ⟨byte, data⟩
    all_goals rfl
  · rfl

/-- **Nothing is read that was not delivered**, and nothing twice or out of order. -/
theorem prefix_brings (network : List (Received ε)) : (brings network).1 <+: arriving network := by
  induction network with
  | nil => exact List.prefix_rfl
  | cons received network ih =>
    rw [brings, result_eq, arriving, List.flatMap_cons]
    rcases received.error with _ | error
    · by_cases hbytes : received.bytes = []
      · cases hcomplete : received.complete
        all_goals simp [hbytes]
      · simp only [if_neg hbytes]
        exact (List.prefix_append_right_inj _).mpr ih
    · exact List.nil_prefix

/-- **What is delivered in chunks is read**, to the end of the stream. -/
theorem brings_eq {network : List (Received ε)} (h : InChunks network) :
    brings network = (arriving network, endOf network) := by
  induction network with
  | nil => rfl
  | cons received network ih =>
    rw [InChunks] at h
    rw [brings, result_eq, arriving, List.flatMap_cons, endOf]
    by_cases hbytes : received.bytes = []
    · rw [if_pos hbytes] at h
      rw [if_pos hbytes, if_pos hbytes, hbytes, List.nil_append, show network.flatMap _ = [] from h]
      rcases received.error with _ | error
      · cases received.complete
        all_goals rfl
      · rfl
    · rw [if_neg hbytes] at h
      rw [if_neg hbytes, if_neg hbytes, h.1]
      simp only [ih h.2]
      rfl

/-- What can be read without an error is the beginning of the stream. -/
theorem readable_prefix (self : Stream ε) : self.readable <+: self.stream :=
  (List.prefix_append_right_inj _).mpr (prefix_brings self.network)

/-- On a chunked network all of the stream can be read. -/
theorem Chunked.readable {self : Stream ε} (h : self.Chunked) : self.readable = self.stream := by
  rw [Stream.readable, brings_eq h, stream]

/-- On a chunked network reading comes to the end that the network has. -/
theorem Chunked.readEnd {self : Stream ε} (h : self.Chunked) : self.readEnd = self.ending := by
  rw [Stream.readEnd, brings_eq h, ending]

/-! ### A call -/

/-- What a call of `receiveJSON` comes to that finds the end of the stream. -/
def unfinished : Outcome ε Unit → Outcome ε Object
  | .waiting => .waiting
  | .threw error => .threw error
  | .returned () => .threw .connectionClosed

/-- What a call of `receiveJSON` comes to, by the stream alone. -/
def nextObject (json : JSONSerialization ε Value Object) (stream : Bytes)
    (ending : Outcome ε Unit) : Outcome ε Object :=
  match splitLine stream with
  | some (line, _) => message json line
  | none =>
    if 8192 < stream.length then .threw .protocolError
    else unfinished ending

/-- What a read does to the stream. -/
def ReadStep (self next : Stream ε) : Outcome ε (Option Bytes) → Prop
  | .returned (some data) =>
    self.readable = data ++ next.readable ∧ self.readEnd = next.readEnd ∧ next.buffered = []
  | .returned none => self.readable = [] ∧ self.readEnd = .returned ()
  | .threw error => self.readable = [] ∧ self.readEnd = .threw error
  | .waiting => self.readable = [] ∧ self.readEnd = .waiting

/-- **A read** takes bytes off the stream, unless it has come to its end. -/
theorem read_step {self next : Stream ε} {outcome : Outcome ε (Option Bytes)}
    (hread : self.read = (outcome, next)) : ReadStep self next outcome := by
  obtain ⟨buffered, network⟩ := self
  cases buffered with
  | cons byte buffered =>
    obtain ⟨rfl, rfl⟩ := Prod.mk.inj hread
    exact ⟨rfl, rfl, rfl⟩
  | nil =>
    cases network with
    | nil =>
      obtain ⟨rfl, rfl⟩ := Prod.mk.inj hread
      exact ⟨rfl, rfl⟩
    | cons received network =>
      obtain ⟨rfl, rfl⟩ := Prod.mk.inj hread
      have hstream : (⟨[], received :: network⟩ : Stream ε).readable
          = (brings (received :: network)).1 := rfl
      have hending : (⟨[], received :: network⟩ : Stream ε).readEnd
          = (brings (received :: network)).2 := rfl
      show ReadStep _ ⟨[], network⟩ received.result
      rw [brings] at hstream hending
      rcases hresult : received.result with _ | error | _ | data
      all_goals rw [hresult] at hstream hending
      · exact ⟨hstream, hending⟩
      · exact ⟨hstream, hending⟩
      · exact ⟨hstream, hending⟩
      · exact ⟨hstream, hending, rfl⟩

/-- Nothing but a short line is returned. -/
theorem length_of_message {json : JSONSerialization ε Value Object} {line : Bytes} {object : Object}
    (h : message json line = .returned object) : line.length ≤ 8192 := by
  rw [message] at h
  split at h
  case isTrue hlength => exact hlength
  case isFalse => cases h

/-- A line is at least as long as what has been read of it. -/
theorem length_le_of_splitLine {line more before behind : Bytes} (hline : newline ∉ line)
    (hsplit : splitLine (line ++ more) = some (before, behind)) : line.length ≤ before.length := by
  obtain ⟨hbefore, heq⟩ := splitLine_eq_some hsplit
  rcases List.append_eq_append_iff.mp heq with ⟨rest, rfl, -⟩ | ⟨rest, rfl, hrest⟩
  · rw [List.length_append]
    exact Nat.le_add_right _ _
  · -- else the newline would be in what has been read
    cases rest with
    | nil => rw [List.append_nil]
    | cons byte rest =>
      obtain ⟨rfl, -⟩ := List.cons.inj hrest
      exact absurd (List.mem_append_right _ (List.mem_cons_self ..)) hline

/-- More than 8192 bytes without a newline: whatever follows, the next line is refused. -/
theorem nextObject_of_long {json : JSONSerialization ε Value Object} {line : Bytes}
    (hline : newline ∉ line) (hlong : 8192 < line.length) (more : Bytes) (ending : Outcome ε Unit) :
    nextObject json (line ++ more) ending = .threw .protocolError := by
  unfold nextObject
  rcases hsplit : splitLine (line ++ more) with _ | ⟨before, behind⟩
  · have hlength : 8192 < (line ++ more).length := by
      rw [List.length_append]
      omega
    exact if_pos hlength
  · have hlength := length_le_of_splitLine hline hsplit
    exact if_neg (by omega)

/-- A line that has no line feed yet and is not too long is unfinished: the call ends as the stream
    does. -/
theorem nextObject_of_short {json : JSONSerialization ε Value Object} {line : Bytes}
    (hline : newline ∉ line) (hshort : line.length ≤ 8192) (ending : Outcome ε Unit) :
    nextObject json (line ++ []) ending = unfinished ending := by
  unfold nextObject
  rw [List.append_nil, splitLine_eq_none hline]
  exact if_neg (Nat.not_lt.mpr hshort)

/-- What a call leaves: when the next line is one of at most 8192 bytes, it has taken that line and
    its newline off the stream, and nothing else. -/
def Takes (self next : Stream ε) (line : Bytes) : Prop :=
  ∀ before behind, splitLine (line ++ self.readable) = some (before, behind) →
    before.length ≤ 8192 → next.readable = behind ∧ next.readEnd = self.readEnd

/-- A call that finds the end of the stream has found no newline. -/
theorem takes_of_ended {self next : Stream ε} {line : Bytes} (hline : newline ∉ line)
    (hstream : self.readable = []) : Takes self next line := by
  intro before behind hsplit
  rw [hstream, List.append_nil, splitLine_eq_none hline] at hsplit
  cases hsplit

/-- A call that finds the end of the stream ends as that does, and has taken no line. -/
theorem ended_spec (json : JSONSerialization ε Value Object) {self next : Stream ε} {line : Bytes}
    (hline : newline ∉ line) (hlength : line.length ≤ 8192) (ended : Outcome ε Unit)
    (h : self.readable = [] ∧ self.readEnd = ended) :
    unfinished ended = nextObject json (line ++ self.readable) self.readEnd ∧
      Takes self next line := by
  obtain ⟨hstream, rfl⟩ := h
  refine ⟨?_, takes_of_ended hline hstream⟩
  rw [hstream, nextObject_of_short hline hlength]

/-- **A call of `receiveJSON`** comes to what the stream alone says, and takes its line. -/
theorem receiveLoop_spec (json : JSONSerialization ε Value Object) {line : Bytes}
    (self : Stream ε) (hline : newline ∉ line) (hlength : line.length ≤ 8192) :
    (receiveLoop json line self).1 = nextObject json (line ++ self.readable) self.readEnd ∧
      Takes self (receiveLoop json line self).2 line := by
  -- one read after another, with what has been read of the line in `line`
  fun_induction receiveLoop json line self with
  | case1 line self next hread =>
    exact ended_spec json hline hlength .waiting (read_step hread)
  | case2 line self error next hread =>
    exact ended_spec json hline hlength (.threw error) (read_step hread)
  | case3 line self next hread =>
    exact ended_spec json hline hlength (.returned ()) (read_step hread)
  | case4 line self data next hread before behind hsplit =>
    obtain ⟨hstream, hending, hbuffered⟩ := read_step hread
    -- the newline is in the chunk: what is behind it goes back into the buffer
    have hmore := splitLine_more hsplit next.readable
    rw [List.append_assoc, ← hstream] at hmore
    refine ⟨?_, fun before' behind' hsplit' _ => ?_⟩
    · unfold nextObject
      rw [hmore]
    · rw [hmore] at hsplit'
      obtain ⟨-, rfl⟩ := Prod.mk.inj (Option.some.inj hsplit')
      refine ⟨?_, hending.symm⟩
      rw [readable, readable, hbuffered]
      rfl
  | case5 line self data next hread hnone hlong =>
    obtain ⟨hstream, hending, -⟩ := read_step hread
    have hread' := not_mem_of_splitLine hnone
    -- there is no newline yet, and the line is already too long
    refine ⟨?_, fun before behind hsplit hshort => ?_⟩
    · rw [hstream, ← List.append_assoc, nextObject_of_long hread' hlong]
    · rw [hstream, ← List.append_assoc] at hsplit
      exact absurd (length_le_of_splitLine hread' hsplit) (by omega)
  | case6 line self data next hread hnone hshort ih =>
    obtain ⟨hstream, hending, -⟩ := read_step hread
    have hspec := ih (not_mem_of_splitLine hnone) (Nat.not_lt.mp hshort)
    rw [Takes] at hspec ⊢
    rw [hstream, ← List.append_assoc, hending]
    exact hspec

/-- A call of `receiveJSON` returns the next object of what can be read, and takes that line off the
    stream. -/
theorem receiveJSON_spec (json : JSONSerialization ε Value Object) (self : Stream ε) :
    (self.receiveJSON json).1 = nextObject json self.readable self.readEnd ∧
      Takes self (self.receiveJSON json).2 [] :=
  receiveLoop_spec json self List.not_mem_nil (Nat.zero_le 8192)

/-- A chunk is read as it is. -/
theorem read_chunk {bytes : Bytes} (hbytes : bytes ≠ []) (complete : Bool)
    (network : List (Received ε)) :
    (⟨[], ⟨some bytes, complete, none⟩ :: network⟩ : Stream ε).read
      = (.returned (some bytes), ⟨[], network⟩) := by
  cases bytes with
  | nil => exact absurd rfl hbytes
  | cons byte bytes => rfl

/-- A call that finds its newline in the first chunk keeps what is behind it. -/
theorem receiveJSON_of_line (json : JSONSerialization ε Value Object) {self next : Stream ε}
    {data before behind : Bytes} (hread : self.read = (.returned (some data), next))
    (hsplit : splitLine data = some (before, behind)) :
    self.receiveJSON json = (message json before, { next with buffered := behind }) := by
  rw [receiveJSON, receiveLoop]
  split
  case h_4 data' next' h =>
    obtain ⟨⟨⟩, rfl⟩ := Prod.mk.inj (hread.symm.trans h)
    rw [List.nil_append, hsplit]
  all_goals next h => cases hread.symm.trans h

/-- A call gives up on a chunk of more than 8192 bytes without a newline. -/
theorem receiveJSON_of_long (json : JSONSerialization ε Value Object) {self next : Stream ε}
    {data : Bytes} (hread : self.read = (.returned (some data), next)) (hdata : newline ∉ data)
    (hlong : 8192 < data.length) : self.receiveJSON json = (.threw .protocolError, next) := by
  rw [receiveJSON, receiveLoop]
  split
  case h_4 data' next' h =>
    obtain ⟨⟨⟩, rfl⟩ := Prod.mk.inj (hread.symm.trans h)
    rw [List.nil_append, splitLine_eq_none hdata]
    exact if_pos hlong
  all_goals next h => cases hread.symm.trans h

/-- A call that returns has taken the line of its object off the stream. -/
theorem receiveJSON_returned {json : JSONSerialization ε Value Object} {self next : Stream ε}
    {object : Object} (h : self.receiveJSON json = (.returned object, next)) :
    ∃ line, splitLine self.readable = some (line, next.readable) ∧ line.length ≤ 8192 ∧
      message json line = (.returned object : Outcome ε Object) ∧ next.readEnd = self.readEnd := by
  obtain ⟨hnext, htakes⟩ := receiveJSON_spec json self
  rw [h] at hnext htakes
  dsimp only at hnext htakes
  unfold nextObject at hnext
  rcases hsplit : splitLine self.readable with _ | ⟨line, behind⟩
  · -- without a line there is no object
    rw [hsplit] at hnext
    dsimp only at hnext
    split at hnext
    · cases hnext
    · cases hend : self.readEnd
      all_goals rw [hend] at hnext
      all_goals cases hnext
  · rw [hsplit] at hnext
    obtain ⟨hrest, hend⟩ := htakes line behind hsplit (length_of_message hnext.symm)
    exact ⟨line, by rw [hrest], length_of_message hnext.symm, hnext.symm, hend⟩

/-- **The reads behind a handshake** are the rest of the stream. -/
theorem tunnelReads_spec (self : Stream ε) :
    self.tunnelReads.1.flatten = self.readable ∧ self.tunnelReads.2 = self.readEnd := by
  fun_induction tunnelReads self with
  | case1 self next hread =>
    obtain ⟨hstream, hending⟩ := read_step hread
    exact ⟨hstream.symm, hending.symm⟩
  | case2 self error next hread =>
    obtain ⟨hstream, hending⟩ := read_step hread
    exact ⟨hstream.symm, hending.symm⟩
  | case3 self next hread =>
    obtain ⟨hstream, hending⟩ := read_step hread
    exact ⟨hstream.symm, hending.symm⟩
  | case4 self data next hread reads ended hrest ih =>
    obtain ⟨hstream, hending, -⟩ := read_step hread
    rw [hrest] at ih
    rw [hstream, hending, ← ih.1, ← ih.2]
    exact ⟨List.flatten_cons, rfl⟩

/-! ### Calls -/

/-- What calls of `receiveJSON` come to, by the stream alone: up to and including the first that
    does not find a line of at most 8192 bytes. -/
def objects (json : JSONSerialization ε Value Object) :
    ℕ → Bytes → Outcome ε Unit → List (Outcome ε Object)
  | 0, _, _ => []
  | calls + 1, stream, ending =>
    nextObject json stream ending ::
      match splitLine stream with
      | some (line, behind) =>
        if line.length ≤ 8192 then objects json calls behind ending else []
      | none => []

/-- A line of at most 8192 bytes never leaves a call waiting. -/
theorem message_ne_waiting (json : JSONSerialization ε Value Object) (line : Bytes) :
    message json line ≠ (.waiting : Outcome ε Object) := by
  unfold message
  split
  · split
    · exact nofun
    · split
      all_goals exact nofun
  · exact nofun

/-- **Calls** come to what the stream alone says, as long as they find lines that are not too
    long. -/
theorem receiveCalls_objects (json : JSONSerialization ε Value Object) (calls : ℕ)
    (self : Stream ε) :
    objects json calls self.readable self.readEnd <+: (self.receiveCalls json calls).1 := by
  induction calls generalizing self with
  | zero => exact List.nil_prefix
  | succ calls ih =>
    obtain ⟨hnext, htakes⟩ := receiveJSON_spec json self
    rw [receiveCalls, objects, ← hnext]
    rcases hcall : self.receiveJSON json with ⟨outcome, next⟩
    rw [hcall] at hnext htakes
    dsimp only at hnext htakes
    -- this call is one of both; the others are about what is behind its line
    have hrest : ∀ behind line, splitLine self.readable = some (line, behind) → line.length ≤ 8192 →
        objects json calls behind self.readEnd <+: (next.receiveCalls json calls).1 := by
      intro behind line hsplit hlength
      obtain ⟨hreadable, hend⟩ := htakes line behind hsplit hlength
      rw [← hreadable, ← hend]
      exact ih next
    rcases hsplit : splitLine self.readable with _ | ⟨line, behind⟩
    · cases outcome
      all_goals exact (List.prefix_append _ _ : [_] <+: [_] ++ _)
    · dsimp only
      split
      case isTrue hlength =>
        have hne : outcome ≠ .waiting := by
          rw [hnext, nextObject, hsplit]
          exact message_ne_waiting json line
        cases outcome with
        | waiting => exact absurd rfl hne
        | threw error => exact (List.prefix_cons_inj _).mpr (hrest behind line hsplit hlength)
        | returned object => exact (List.prefix_cons_inj _).mpr (hrest behind line hsplit hlength)
      case isFalse =>
        cases outcome
        all_goals exact (List.prefix_append _ _ : [_] <+: [_] ++ _)

/-- So many calls return at most so many results. -/
theorem length_receiveCalls_le (json : JSONSerialization ε Value Object) (calls : ℕ)
    (self : Stream ε) : (self.receiveCalls json calls).1.length ≤ calls := by
  induction calls generalizing self with
  | zero => exact Nat.le_refl 0
  | succ calls ih =>
    rw [receiveCalls]
    split
    · exact Nat.le_add_left 1 calls
    · next outcome next _ hcall => exact Nat.succ_le_succ (ih next)

/-- **Calls that return** have taken as many lines off the stream. -/
theorem receiveCalls_returned (json : JSONSerialization ε Value Object) (calls : ℕ)
    (self : Stream ε)
    (hall : ∀ outcome ∈ (self.receiveCalls json calls).1, ∃ object, outcome = .returned object) :
    ∃ lines : List Bytes, lines.length = calls ∧
      (∀ line ∈ lines, newline ∉ line ∧ line.length ≤ 8192) ∧
      (self.receiveCalls json calls).1 = lines.map (message json) ∧
      self.readable = unlines lines ++ (self.receiveCalls json calls).2.readable ∧
      (self.receiveCalls json calls).2.readEnd = self.readEnd := by
  induction calls generalizing self with
  | zero => exact ⟨[], rfl, by simp, rfl, rfl, rfl⟩
  | succ calls ih =>
    rw [receiveCalls] at hall ⊢
    rcases hcall : self.receiveJSON json with ⟨outcome, next⟩
    rw [hcall] at hall
    cases outcome with
    | waiting =>
      obtain ⟨object, hobject⟩ := hall _ (List.mem_singleton_self _)
      cases hobject
    | threw error =>
      obtain ⟨object, hobject⟩ := hall _ (List.mem_cons_self ..)
      cases hobject
    | returned object =>
      -- the call took `line` and its newline; the other calls are about what is behind
      obtain ⟨line, hsplit, hlength, hmessage, hending⟩ := receiveJSON_returned hcall
      obtain ⟨hline, hstream⟩ := splitLine_eq_some hsplit
      obtain ⟨lines, hcount, hshort, hmessages, hrest, hend⟩ :=
        ih next fun outcome houtcome => hall outcome (List.mem_cons_of_mem _ houtcome)
      refine ⟨line :: lines, by rw [List.length_cons, hcount],
        List.forall_mem_cons.mpr ⟨⟨hline, hlength⟩, hshort⟩, ?_, ?_, hend.trans hending⟩
      · rw [List.map_cons, hmessage]
        exact congrArg _ hmessages
      · rw [hstream, unlines_cons, List.append_assoc, List.cons_append, ← hrest]

/-- **The tunnel** hands on everything behind the acknowledgement. -/
theorem tunnel_writes {json : JSONSerialization ε Value Object} {isOk : Object → Bool}
    {remote : Stream ε} {ack : Bytes} {object : Object} {bytes : Bytes}
    (hack : newline ∉ ack) (hmessage : message json ack = (.returned object : Outcome ε Object))
    (hok : isOk object = true) (hstream : remote.readable = ack ++ newline :: bytes) :
    ∃ writes, tunnel json isOk remote = .returned (writes, remote.readEnd) ∧
      writes.flatten = bytes := by
  obtain ⟨hnext, htakes⟩ := receiveJSON_spec json remote
  have hsplit := splitLine_append hack bytes
  rw [← hstream] at hsplit
  have hreturned : nextObject json remote.readable remote.readEnd = .returned object := by
    unfold nextObject
    rw [hsplit]
    exact hmessage
  obtain ⟨hrest, hending⟩ := htakes ack bytes hsplit (length_of_message hmessage)
  rcases hcall : remote.receiveJSON json with ⟨outcome, next⟩
  rw [hcall] at hnext hending hrest
  obtain rfl : outcome = .returned object := hnext.trans hreturned
  obtain ⟨hreads, hended⟩ := tunnelReads_spec next
  refine ⟨next.tunnelReads.1, ?_, hreads.trans hrest⟩
  rw [tunnel, hcall]
  show (if isOk object = true then _ else _) = _
  rw [if_pos hok, ← hending, ← hended]

/-- A parser of a handful of objects: the text in braces is the object. -/
def braces : JSONSerialization ℕ Bytes Bytes :=
  ⟨Except.ok, fun value => if value.head? = some 123 then some value else none⟩

end Stream

end ShareCompute.App
