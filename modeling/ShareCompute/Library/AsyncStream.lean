import Mathlib.Data.List.Infix

namespace ShareCompute.Library

/-!
# A stream from tasks that yield to one that takes

Elements wait in an unbounded buffer.  Whoever finishes the stream first says how it ends, and what
is yielded or finished after that is dropped; the taker hears of the end once the buffer is empty.

* `AsyncStream` — the buffer, and how the stream was finished.
* `Carried` — what the stream has accepted has been taken, or waits in the buffer.
-/

/-- A stream with an unbounded buffer; what was yielded and not taken waits in it, the oldest
    first. -/
structure AsyncStream (α ε : Type) where
  buffer : List α
  /-- it was finished: normally, or with an error -/
  terminal : Option (Option ε)

namespace AsyncStream

variable {α ε : Type}

/-- A new stream, nothing of which was yielded or finished. -/
def makeStream : AsyncStream α ε := ⟨[], none⟩

/-- `yield(element)`: the element waits behind the others, unless the stream was finished. -/
def yield (s : AsyncStream α ε) (element : α) : AsyncStream α ε :=
  if s.terminal.isSome then s else { s with buffer := s.buffer ++ [element] }

/-- `finish()` or `finish(throwing:)`: the first one says how the stream ends. -/
def finish (s : AsyncStream α ε) (ending : Option ε) : AsyncStream α ε :=
  if s.terminal.isSome then s else { s with terminal := some ending }

/-- What `next` returns; it waits while there is nothing. -/
def next (s : AsyncStream α ε) : Option ((α ⊕ Option ε) × AsyncStream α ε) :=
  match s.buffer, s.terminal with
  | element :: rest, _ => some (.inl element, { s with buffer := rest })
  | [], some ending => some (.inr ending, s)
  | [], none => none

/-! ### What a call leaves -/

variable {s s' : AsyncStream α ε} {element : α} {ending : Option ε}

/-- To yield does not finish the stream. -/
@[simp] theorem yield_terminal : (s.yield element).terminal = s.terminal := by
  unfold yield
  split <;> rfl

/-- To finish the stream drops nothing that waits in it. -/
@[simp] theorem finish_buffer : (s.finish ending).buffer = s.buffer := by
  unfold finish
  split <;> rfl

/-- In a stream that was not finished the element waits behind the others. -/
theorem yield_of_open (h : s.terminal = none) :
    (s.yield element).buffer = s.buffer ++ [element] := by simp [yield, h]

/-- What is yielded after the end is dropped. -/
theorem yield_of_finished (h : s.terminal.isSome = true) : s.yield element = s := if_pos h

/-- A stream that was finished stays finished as it was the first time. -/
theorem finish_of_finished (h : s.terminal.isSome = true) : s.finish ending = s := if_pos h

/-- The first one to finish it says how. -/
theorem finish_terminal : (s.finish ending).terminal = some (s.terminal.getD ending) := by
  unfold finish
  split
  case isTrue h =>
    obtain ⟨first, hfirst⟩ := Option.isSome_iff_exists.mp h
    rw [hfirst, Option.getD_some]
  case isFalse h =>
    have hnone : s.terminal = none := by simpa using h
    rw [hnone, Option.getD_none]

/-- An element that is taken was the first of those that waited, and the others wait on. -/
theorem next_element (h : s.next = some (.inl element, s')) :
    s.buffer = element :: s'.buffer ∧ s'.terminal = s.terminal := by
  unfold next at h
  split at h
  case h_1 element' rest hbuffer =>
    obtain ⟨heq, rfl⟩ := Prod.mk.inj (Option.some.inj h)
    obtain rfl := Sum.inl.inj heq
    exact ⟨hbuffer, rfl⟩
  case h_2 => simp at h
  case h_3 => cases h

/-- The end is heard when the buffer is empty. -/
theorem next_ending (h : s.next = some (.inr ending, s')) :
    s.buffer = [] ∧ s.terminal = some ending ∧ s' = s := by
  unfold next at h
  split at h
  case h_1 => simp at h
  case h_2 ending' hbuffer hterminal =>
    obtain ⟨heq, rfl⟩ := Prod.mk.inj (Option.some.inj h)
    obtain rfl := Sum.inr.inj heq
    exact ⟨hbuffer, hterminal, rfl⟩
  case h_3 => cases h

/-- A finished stream keeps nobody waiting, since there is an element or its end to return. -/
theorem next_isSome (h : s.terminal.isSome = true) : s.next.isSome = true := by
  obtain ⟨ending, hending⟩ := Option.isSome_iff_exists.mp h
  unfold next
  split
  case h_1 => rfl
  case h_2 => rfl
  case h_3 hnone =>
    rw [hending] at hnone
    cases hnone

/-! ### What has come through -/

/-- The stream was given `offered`, and `taken` was taken. -/
structure Carried (s : AsyncStream α ε) (offered taken : List α) : Prop where
  accepted : taken ++ s.buffer <+: offered
  /-- nothing is lost before the stream is finished -/
  whole : s.terminal = none → taken ++ s.buffer = offered

variable {offered taken : List α}

/-- A new stream has carried nothing: nothing was yielded and nothing was taken. -/
theorem Carried.init : Carried (makeStream : AsyncStream α ε) [] [] :=
  ⟨List.prefix_rfl, fun _ => rfl⟩

/-- What was taken is what was offered, up to some point. -/
theorem Carried.taken_prefix (h : Carried s offered taken) : taken <+: offered :=
  (List.prefix_append taken s.buffer).trans h.accepted

/-- An element that is yielded is offered, and it is carried if the stream was not finished. -/
theorem Carried.yield (h : Carried s offered taken) :
    Carried (s.yield element) (offered ++ [element]) taken := by
  cases hterminal : s.terminal with
  | none =>
    have hwhole : taken ++ (s.yield element).buffer = offered ++ [element] := by
      rw [yield_of_open hterminal, ← List.append_assoc, h.whole hterminal]
    exact ⟨hwhole ▸ List.prefix_rfl, fun _ => hwhole⟩
  | some ending =>
    have hsome : s.terminal.isSome = true := by rw [hterminal]; rfl
    rw [yield_of_finished hsome]
    refine ⟨h.accepted.trans (List.prefix_append _ _), fun hnone => ?_⟩
    rw [hterminal] at hnone
    cases hnone

/-- Finishing the stream offers and takes nothing. -/
theorem Carried.finish (h : Carried s offered taken) : Carried (s.finish ending) offered taken := by
  refine ⟨by rw [finish_buffer]; exact h.accepted, fun hnone => ?_⟩
  rw [finish_terminal] at hnone
  cases hnone

/-- The element that is taken is the next one of those that were offered. -/
theorem Carried.next (h : Carried s offered taken) (hnext : s.next = some (.inl element, s')) :
    Carried s' offered (taken ++ [element]) := by
  obtain ⟨hbuffer, hterminal⟩ := next_element hnext
  have heq : (taken ++ [element]) ++ s'.buffer = taken ++ s.buffer := by
    rw [hbuffer, List.append_assoc, List.singleton_append]
  exact ⟨heq ▸ h.accepted, fun hnone => heq ▸ h.whole (hterminal ▸ hnone)⟩

end AsyncStream

end ShareCompute.Library
