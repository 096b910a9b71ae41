import Mathlib.Data.List.Basic

namespace ShareCompute.Library

/-!
# Memory as a function of addresses

A memory assigns a value to every natural number.  `write` replaces the values of a region,
`read` takes a region out; `read_write` and `write_of_outside` say all there is to know about
one write.
-/

/-- A memory with cells of type `β`. -/
abbrev Memory (β : Type) := ℕ → β

namespace Memory

variable {β : Type}

/-- The contents of the `length` cells from `start` on. -/
def read (memory : Memory β) (start length : ℕ) : List β :=
  (List.range length).map (fun i => memory (start + i))

/-- Put `cells` at `start`, over what was there before. -/
def write (memory : Memory β) (start : ℕ) (cells : List β) : Memory β := fun address =>
  if start ≤ address then (cells[address - start]?).getD (memory address) else memory address

/-- A written region reads back as what was written. -/
theorem read_write (memory : Memory β) (start : ℕ) (cells : List β) :
    (memory.write start cells).read start cells.length = cells := by
  refine List.ext_getElem (by simp [read]) fun i hi hi' => ?_
  simp [read, write, hi']

/-- Everything outside the region that is written stays as before. -/
theorem write_of_outside (memory : Memory β) {start address : ℕ} {cells : List β}
    (h : address < start ∨ start + cells.length ≤ address) :
    memory.write start cells address = memory address := by
  rcases h with h | h
  · exact if_neg (Nat.not_le.mpr h)
  · rw [write, if_pos (by omega), List.getElem?_eq_none (by omega)]
    rfl

end Memory

end ShareCompute.Library
