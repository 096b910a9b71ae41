import Mathlib.Algebra.Order.Floor.Ring
import Mathlib.Algebra.Order.BigOperators.Group.List
import Mathlib.Data.Rat.Floor
import Mathlib.Tactic.Linarith

namespace ShareCompute.Library

/-!
# Sharing out whole units

The arithmetic of apportionment: a total is divided into exact shares, each is rounded down
and the units that rounding left over are handed out one at a time.

* `sum_floor_le` / `lt_sum_floor_add_length` — rounding down loses less than one unit a share.
* `pos_of_lt_sum` — the units left over go to shares that were in fact rounded down.
* `bump` — hand one unit to each of the listed positions; `sum_bump` and `getElem?_bump` say
  what it does to the total and to each share.
* `transfer` — move one unit from one position to another.
* `firstMax` — the first position with the largest share.
-/

/-! ### Rounding down -/

/-- Rounding down never overspends: the floors add up to no more than the numbers do. -/
theorem sum_floor_le (xs : List ℚ) : ((xs.map Int.floor).sum : ℚ) ≤ xs.sum := by
  induction xs with
  | nil => simp
  | cons x xs ih =>
    rw [List.map_cons, List.sum_cons, List.sum_cons, Int.cast_add]
    exact add_le_add (Int.floor_le x) ih

/-- Rounding down loses less than one unit for each share. -/
theorem lt_sum_floor_add_length {xs : List ℚ} (hxs : xs ≠ []) :
    xs.sum < ((xs.map Int.floor).sum : ℚ) + xs.length := by
  induction xs with
  | nil => exact absurd rfl hxs
  | cons x xs ih =>
    simp only [List.map_cons, List.sum_cons, Int.cast_add, List.length_cons, Nat.cast_add,
      Nat.cast_one]
    by_cases hnil : xs = []
    · subst hnil
      simp
    · linarith [ih hnil, Int.lt_floor_add_one x]

/-- What rounding down loses, share by share. -/
theorem sum_sub_floor (xs : List ℚ) :
    (xs.map (fun x => x - (⌊x⌋ : ℚ))).sum = xs.sum - ((xs.map Int.floor).sum : ℤ) := by
  induction xs with
  | nil => simp
  | cons x xs ih =>
    rw [List.map_cons, List.sum_cons, ih, List.map_cons, List.sum_cons, List.sum_cons]
    push_cast
    ring

/-- Remainders of at most one unit that add up to `n` units, largest first: the first `n` of
    them are positive. -/
theorem pos_of_lt_sum {fs : List ℚ} (hsorted : fs.Pairwise (· ≥ ·)) (hle : ∀ f ∈ fs, f ≤ 1)
    {n p : ℕ} (hsum : fs.sum = n) (hp : p < n) (hlen : p < fs.length) : 0 < fs[p] := by
  by_contra hnonpos
  rw [not_lt] at hnonpos
  -- then nothing from `p` on contributes, and the first `p` remainders are at most one each
  have hhead : (fs.take p).sum ≤ p := by
    have := List.sum_le_card_nsmul (fs.take p) 1 (fun f hf => hle f (List.mem_of_mem_take hf))
    rw [List.length_take, min_eq_left hlen.le] at this
    simpa using this
  have hdrop : fs.drop p = fs[p] :: fs.drop (p + 1) := List.drop_eq_getElem_cons hlen
  have htail : (fs.drop p).sum ≤ 0 := by
    have hpairwise : (fs.drop p).Pairwise (· ≥ ·) := hsorted.sublist (List.drop_sublist p fs)
    rw [hdrop, List.pairwise_cons] at hpairwise
    have hsmall : ∀ f ∈ fs.drop p, f ≤ 0 := by
      intro f hf
      rw [hdrop] at hf
      rcases List.mem_cons.mp hf with rfl | hf
      · exact hnonpos
      · exact (hpairwise.1 f hf).trans hnonpos
    simpa using List.sum_le_card_nsmul (fs.drop p) 0 hsmall
  have htotal : (fs.take p).sum + (fs.drop p).sum = n := by
    rw [← List.sum_append, List.take_append_drop, hsum]
  have hlt : (p : ℚ) < n := by exact_mod_cast hp
  linarith

/-! ### Handing out single units -/

/-- Add `d` at position `i`, and leave the other places as they are. -/
def addAt (d : ℤ) (r : List ℤ) (i : ℕ) : List ℤ := r.modify i (· + d)

/-- Changing one share leaves as many shares as there were. -/
@[simp] theorem length_addAt (d : ℤ) (r : List ℤ) (i : ℕ) : (addAt d r i).length = r.length :=
  List.length_modify ..

/-- Changing one share leaves the others at what they were. -/
theorem getElem?_addAt (d : ℤ) (r : List ℤ) (i j : ℕ) :
    (addAt d r i)[j]? = r[j]?.map (fun x => if i = j then x + d else x) := by
  rw [addAt, List.getElem?_modify]
  by_cases h : i = j <;> simp [h]

/-- To change a share is to replace it by what it becomes. -/
theorem addAt_eq_set (d : ℤ) {r : List ℤ} {i : ℕ} (hi : i < r.length) :
    addAt d r i = r.set i (r[i] + d) := by
  rw [addAt, List.modify_eq_set_getElem?, List.getElem?_eq_getElem hi]
  rfl

/-- Changing one share changes the sum by as much. -/
theorem sum_addAt (d : ℤ) {r : List ℤ} {i : ℕ} (hi : i < r.length) :
    (addAt d r i).sum = r.sum + d := by
  induction r generalizing i with
  | nil => simp at hi
  | cons x r ih =>
    cases i with
    | zero => simp [addAt]; ring
    | succ i =>
      have := ih (i := i) (by simpa using hi)
      simp only [addAt, List.modify_succ_cons, List.sum_cons] at this ⊢
      rw [this]; ring

/-- Hand one unit to each of the positions `is`, in order. -/
def bump (is : List ℕ) (r : List ℤ) : List ℤ := is.foldl (addAt 1) r

/-- Handing out units leaves as many shares as there were. -/
@[simp] theorem length_bump (is : List ℕ) (r : List ℤ) : (bump is r).length = r.length := by
  induction is generalizing r with
  | nil => rfl
  | cons i is ih => rw [bump, List.foldl_cons, ← bump, ih, length_addAt]

/-- Every position gains as many units as it is listed times. -/
theorem getElem?_bump (is : List ℕ) (r : List ℤ) (j : ℕ) :
    (bump is r)[j]? = r[j]?.map (fun x => x + (is.count j : ℤ)) := by
  induction is generalizing r with
  | nil => simp [bump]
  | cons i is ih =>
    rw [bump, List.foldl_cons, ← bump, ih, getElem?_addAt, Option.map_map]
    refine congrArg (Option.map · _) (funext fun x => ?_)
    by_cases h : i = j
    · simp [h]; ring
    · simp [h]

/-- Handing out units adds one to the sum for each place that gets one. -/
theorem sum_bump {is : List ℕ} {r : List ℤ} (his : ∀ i ∈ is, i < r.length) :
    (bump is r).sum = r.sum + is.length := by
  induction is generalizing r with
  | nil => simp [bump]
  | cons i is ih =>
    rw [bump, List.foldl_cons, ← bump, ih, sum_addAt 1 (his i (List.mem_cons_self ..))]
    · push_cast [List.length_cons]; ring
    · intro j hj
      rw [length_addAt]
      exact his j (List.mem_cons_of_mem _ hj)

/-! ### Moving a unit -/

/-- Move one unit from position `i` to position `j`. -/
def transfer (i j : ℕ) (r : List ℤ) : List ℤ := addAt 1 (addAt (-1) r i) j

/-- Moving a unit leaves as many shares as there were. -/
@[simp] theorem length_transfer (i j : ℕ) (r : List ℤ) : (transfer i j r).length = r.length := by
  simp [transfer]

/-- Moving a unit from one share to another does not change the sum. -/
theorem sum_transfer {i j : ℕ} {r : List ℤ} (hi : i < r.length) (hj : j < r.length) :
    (transfer i j r).sum = r.sum := by
  rw [transfer, sum_addAt 1 (by simpa using hj), sum_addAt (-1) hi]
  ring

/-- Moving a unit takes one from the first share and gives it to the second, and touches no
    other. -/
theorem getElem?_transfer {i j : ℕ} (hij : i ≠ j) (r : List ℤ) (k : ℕ) :
    (transfer i j r)[k]?
      = r[k]?.map (fun x => if k = i then x - 1 else if k = j then x + 1 else x) := by
  rw [transfer, getElem?_addAt, getElem?_addAt, Option.map_map]
  refine congrArg (Option.map · _) (funext fun x => ?_)
  rcases eq_or_ne k i with rfl | hki
  · simp [hij.symm, sub_eq_add_neg]
  · rcases eq_or_ne k j with rfl | hkj
    · simp [hki, hki.symm]
    · simp [hki, hki.symm, hkj, hkj.symm]

/-- Moving a unit from an entry above `1` to a `0` leaves one `0` fewer. -/
theorem count_zero_transfer {i j : ℕ} {r : List ℤ} (hi : i < r.length) (hj : j < r.length)
    (hbig : 1 < r[i]) (hzero : r[j] = 0) : (transfer i j r).count 0 + 1 = r.count 0 := by
  have hij : i ≠ j := by
    rintro rfl
    omega
  have hpos : 0 < r.count 0 := List.count_pos_iff.mpr (hzero ▸ List.getElem_mem hj)
  have hset : transfer i j r = (r.set i (r[i] - 1)).set j 1 := by
    rw [transfer, addAt_eq_set (-1) hi, addAt_eq_set 1 (by simpa using hj)]
    simp [hij, hzero, sub_eq_add_neg]
  rw [hset, List.count_set (by simpa using hj), List.count_set hi]
  have hi0 : r[i] ≠ 0 := by omega
  have hi1 : r[i] - 1 ≠ 0 := by omega
  simp only [List.getElem_set_ne hij, hzero, beq_iff_eq, hi0, hi1]
  simp
  omega

/-! ### The largest share -/

/-- The first of the positions `i :: is` at which `f` is largest. -/
def firstMax (f : ℕ → ℤ) (i : ℕ) (is : List ℕ) : ℕ :=
  is.foldl (fun best j => if f best < f j then j else best) i

/-- The place that is found is one of those looked at, and none of them has a larger share. -/
theorem firstMax_spec (f : ℕ → ℤ) (i : ℕ) (is : List ℕ) :
    firstMax f i is ∈ i :: is ∧ ∀ j ∈ i :: is, f j ≤ f (firstMax f i is) := by
  induction is generalizing i with
  | nil => simp [firstMax]
  | cons k is ih =>
    rw [firstMax, List.foldl_cons, ← firstMax]
    obtain ⟨hmem, hmax⟩ := ih (if f i < f k then k else i)
    -- the new best is the larger of the old best and `k`
    have hbest : f i ≤ f (if f i < f k then k else i) ∧ f k ≤ f (if f i < f k then k else i) := by
      split <;> omega
    have hfirst := hmax _ (List.mem_cons_self ..)
    refine ⟨?_, fun j hj => ?_⟩
    · rcases List.mem_cons.mp hmem with heq | hmem
      · rw [heq]
        split <;> simp
      · exact List.mem_cons_of_mem _ (List.mem_cons_of_mem _ hmem)
    · rcases List.mem_cons.mp hj with rfl | hj
      · exact hbest.1.trans hfirst
      rcases List.mem_cons.mp hj with rfl | hj
      · exact hbest.2.trans hfirst
      · exact hmax j (List.mem_cons_of_mem _ hj)

/-! ### Starved shares -/

/-- When a list of naturals sums to at least its length and one entry is `0`, another entry
    is at least `2`. -/
theorem exists_two_le_of_zero {r : List ℤ} (hnonneg : ∀ x ∈ r, 0 ≤ x)
    (hsum : (r.length : ℤ) ≤ r.sum) (hzero : (0 : ℤ) ∈ r) : ∃ x ∈ r, 2 ≤ x := by
  by_contra hsmall
  have hle : ∀ x ∈ r, x ≤ 1 := by
    intro x hx
    by_contra hx'
    exact hsmall ⟨x, hx, by omega⟩
  -- entries at most `1`, one of them `0`, cannot sum to the length
  obtain ⟨l₁, l₂, rfl⟩ := List.append_of_mem hzero
  have h₁ : l₁.sum ≤ l₁.length := by
    simpa using List.sum_le_card_nsmul l₁ 1 (fun x hx => hle x (by simp [hx]))
  have h₂ : l₂.sum ≤ l₂.length := by
    simpa using List.sum_le_card_nsmul l₂ 1 (fun x hx => hle x (by simp [hx]))
  simp only [List.length_append, List.length_cons, List.sum_append, List.sum_cons] at hsum
  push_cast at hsum
  omega

end ShareCompute.Library
