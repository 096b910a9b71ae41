import ShareCompute.Library.BigEndian
import Mathlib.Data.List.Basic

namespace ShareCompute.Library

/-!
# Sockets that deliver their bytes in chunks

A reader waits for a socket until a deadline, and then receives what has come.  How the bytes of a
stream are split, and when a deadline passes, is up to the network; a socket is what comes of it.

* `Carries` — a socket on which a stream arrives, in chunks that are not empty.
* `receive`, `receive_carries` — a fixed number of bytes; how they are split makes no difference.
-/

/-- What a wait ends with: the deadline, or some bytes. -/
inductive Arrival
  /-- nothing has come before the deadline -/
  | silence
  /-- these bytes; none at the end of the stream -/
  | chunk (bytes : Bytes)

/-- What comes, in this order; behind the last arrival the reader waits. -/
abbrev Socket := List Arrival

/-- The stream arrives, and no deadline passes. -/
def Carries (socket : Socket) (stream : Bytes) : Prop :=
  ∃ chunks : List Bytes, (∀ c ∈ chunks, c ≠ []) ∧ socket = chunks.map .chunk ∧
    chunks.flatten = stream

/-! ### A number of bytes -/

/-- What a read of a number of bytes comes to. -/
inductive Received
  /-- it still waits -/
  | waiting
  /-- the deadline has passed, or the stream has ended -/
  | nothing
  | bytes (buf : Bytes)

/-- Read until `buf` has `n` bytes, and never more than are missing. -/
def receive (n : ℕ) (buf : Bytes) : Socket → Received × Socket
  | [] => if n ≤ buf.length then (.bytes buf, []) else (.waiting, [])
  | arrival :: socket =>
      if n ≤ buf.length then (.bytes buf, arrival :: socket)
      else
        match arrival with
        | .silence => (.nothing, socket)
        | .chunk bytes =>
            if bytes = [] then (.nothing, socket)
            else if bytes.length ≤ n - buf.length then receive n (buf ++ bytes) socket
            else (.bytes (buf ++ bytes.take (n - buf.length)),
              .chunk (bytes.drop (n - buf.length)) :: socket)

/-- When enough bytes are buffered nothing is received. -/
theorem receive_enough {n : ℕ} {buf : Bytes} (h : n ≤ buf.length) (socket : Socket) :
    receive n buf socket = (.bytes buf, socket) := by
  cases socket with
  | nil => rw [receive, if_pos h]
  | cons arrival socket => cases arrival <;> rw [receive, if_pos h]

/-- What is received does not depend on how the stream is split into chunks: it is the next bytes,
    or the call waits. -/
theorem receive_chunks (chunks : List Bytes) (hne : ∀ c ∈ chunks, c ≠ []) (n : ℕ) (buf : Bytes)
    (hbuf : buf.length ≤ n) :
    match takeBytes n (buf ++ chunks.flatten) with
    | none => receive n buf (chunks.map .chunk) = (.waiting, [])
    | some (bytes, rest) => ∃ socket, receive n buf (chunks.map .chunk) = (.bytes bytes, socket) ∧
        Carries socket rest := by
  induction chunks generalizing buf with
  | nil =>
    rw [List.flatten_nil, List.append_nil, takeBytes]
    by_cases hfull : n ≤ buf.length
    · have hall : buf.length = n := le_antisymm hbuf hfull
      rw [if_pos hfull, ← hall, List.take_length, List.drop_length]
      exact ⟨[], receive_enough (le_refl _) _, [], by simp, rfl, rfl⟩
    · rw [if_neg hfull]
      exact if_neg hfull
  | cons c chunks ih =>
    have hc : c ≠ [] := hne c List.mem_cons_self
    have hrest : ∀ c ∈ chunks, c ≠ [] := fun c hc => hne c (List.mem_cons_of_mem _ hc)
    by_cases hfull : n ≤ buf.length
    · -- nothing is missing, and nothing is read
      have hall : buf.length = n := le_antisymm hbuf hfull
      rw [takeBytes_append hall]
      exact ⟨_, receive_enough hfull _, c :: chunks, hne, rfl, rfl⟩
    · rw [List.map_cons, receive, if_neg hfull]
      simp only [if_neg hc]
      by_cases hfits : c.length ≤ n - buf.length
      -- the whole chunk is taken, and more may be missing
      · have hstep := ih hrest (buf ++ c) (by rw [List.length_append]; omega)
        rw [List.append_assoc] at hstep
        rw [if_pos hfits]
        exact hstep
      · -- the chunk has more than is missing, and the rest of it stays
        rw [if_neg hfits]
        have hsplit : buf ++ (c :: chunks).flatten = (buf ++ c.take (n - buf.length)) ++
            (c.drop (n - buf.length) ++ chunks.flatten) := by
          rw [List.flatten_cons, List.append_assoc, ← List.append_assoc (c.take _),
            List.take_append_drop]
        have hlength : (buf ++ c.take (n - buf.length)).length = n := by
          rw [List.length_append, List.length_take]
          omega
        rw [hsplit, takeBytes_append hlength]
        refine ⟨_, rfl, c.drop (n - buf.length) :: chunks, ?_, rfl, rfl⟩
        intro d hd
        rcases List.mem_cons.mp hd with rfl | hd
        · exact List.ne_nil_of_length_pos (by rw [List.length_drop]; omega)
        · exact hrest d hd

/-- **How the bytes are split makes no difference**: they are the next ones of the stream. -/
theorem receive_carries {socket : Socket} {stream : Bytes} (h : Carries socket stream) (n : ℕ) :
    match takeBytes n stream with
    | none => receive n [] socket = (.waiting, [])
    | some (bytes, rest) => ∃ socket', receive n [] socket = (.bytes bytes, socket') ∧
        Carries socket' rest := by
  obtain ⟨chunks, hne, rfl, rfl⟩ := h
  exact receive_chunks chunks hne n [] (Nat.zero_le n)

/-- When the stream has enough bytes, the call returns them and leaves the rest on the socket. -/
theorem receive_of_takeBytes {socket : Socket} {stream bytes rest : Bytes} {n : ℕ}
    (h : Carries socket stream) (htake : takeBytes n stream = some (bytes, rest)) :
    ∃ socket', receive n [] socket = (.bytes bytes, socket') ∧ Carries socket' rest := by
  have hreceive := receive_carries h n
  rw [htake] at hreceive
  exact hreceive

/-- When the stream has too few bytes, the call waits. -/
theorem receive_waiting {socket : Socket} {stream : Bytes} {n : ℕ} (h : Carries socket stream)
    (htake : takeBytes n stream = none) : receive n [] socket = (.waiting, []) := by
  have hreceive := receive_carries h n
  rw [htake] at hreceive
  exact hreceive

end ShareCompute.Library
