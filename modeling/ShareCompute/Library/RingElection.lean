import Mathlib.Data.List.Rotate

namespace ShareCompute.Library

/-!
# Elections in a ring

Candidacies travel around a ring, and a member hands one on only if it is weaker than the
candidate.

* `Follows ring d e` — `e` comes after `d`; read off a list and an index by `Follows.of_getElem?`.
* `Held`, `Arrived` — a candidacy of `c` that the member `d` is about to hand on, or is about to
  judge: every member it has passed is weaker than `c`.
* `Arrived.strongest` — a candidacy that is back home has passed everybody else, so its candidate
  is the strongest member, and there is one such member at most.
* `around` — what can be brought from each member to the next can be brought all the way around.
-/

namespace RingElection

open List

variable {α : Type} {ring ring' : List α} {weaker : α → α → Prop} {c d e : α}

/-- `e` comes after `d` in the ring. -/
def Follows (ring : List α) (d e : α) : Prop :=
  ∃ rest, ring ~r d :: rest ∧ (rest ++ [d]).head? = some e

/-- `d` is about to hand on the candidacy of `c`: all from behind `c` to `d` are weaker. -/
def Held (ring : List α) (weaker : α → α → Prop) (c d : α) : Prop :=
  ∃ passed rest, ring ~r (c :: passed) ++ rest ∧ (c :: passed).getLast? = some d ∧
    ∀ x ∈ passed, weaker x c

/-- The candidacy of `c` is on its way to `d`: all between `c` and `d` are weaker. -/
def Arrived (ring : List α) (weaker : α → α → Prop) (c d : α) : Prop :=
  ∃ passed rest, ring ~r (c :: passed) ++ rest ∧ (rest ++ [c]).head? = some d ∧
    ∀ x ∈ passed, weaker x c

/-- Every other member is weaker than `c`. -/
def Strongest (ring : List α) (weaker : α → α → Prop) (c : α) : Prop :=
  c ∈ ring ∧ ∀ x ∈ ring, x ≠ c → weaker x c

/-! ### The next member -/

/-- A rotation is told by its first member. -/
theorem eq_of_isRotated_of_head? (hnodup : ring.Nodup) (h : ring ~r ring')
    (hhead : ring.head? = ring'.head?) : ring = ring' := by
  obtain ⟨n, hlt, rfl⟩ := isRotated_iff_mod.mp h
  rcases eq_or_ne ring [] with rfl | hne
  · rw [rotate_nil]
  rcases Nat.lt_or_ge n ring.length with hn | hn
  · rw [head?_rotate hn, head?_eq_getElem?] at hhead
    have hpos : 0 < ring.length := by omega
    rw [← (getElem?_inj hpos hnodup).mp hhead, rotate_zero]
  · obtain rfl : n = ring.length := by omega
    rw [rotate_length]

/-- The member at an index is followed by the one at the next index, cyclically. -/
theorem Follows.of_getElem? {i : ℕ} (hd : ring[i]? = some d)
    (he : ring[(i + 1) % ring.length]? = some e) : Follows ring d e := by
  have hi := (List.getElem?_eq_some_iff.mp hd).1
  have hhead : (ring.rotate i).head? = some d := (head?_rotate hi).trans hd
  obtain ⟨rest, hrest⟩ := head?_eq_some_iff.mp hhead
  refine ⟨rest, ⟨i, hrest⟩, ?_⟩
  have hnext : rest ++ [d] = ring.rotate ((i + 1) % ring.length) := by
    rw [rotate_mod, ← rotate_rotate, hrest, rotate_cons_succ, rotate_zero]
  rw [hnext, head?_rotate (Nat.mod_lt _ (by omega)), he]

theorem Follows.rest_eq (hnodup : ring.Nodup) {rest : List α} (h : Follows ring d e)
    (hrot : ring ~r d :: rest) : (rest ++ [d]).head? = some e := by
  obtain ⟨rest', hrot', hhead⟩ := h
  have heq := eq_of_isRotated_of_head? (hrot'.nodup_iff.mp hnodup) (hrot'.symm.trans hrot) rfl
  obtain rfl : rest' = rest := (List.cons.inj heq).2
  exact hhead

theorem Follows.mem (h : Follows ring d e) : e ∈ ring := by
  obtain ⟨rest, hrot, hhead⟩ := h
  have hmem := mem_of_mem_head? (Option.mem_def.mpr hhead)
  rw [hrot.mem_iff]
  exact (mem_append.mp hmem).elim (mem_cons_of_mem d) fun h => mem_singleton.mp h ▸ mem_cons_self

/-! ### Candidacies -/

/-- A candidacy starts at its candidate, from whom it has passed nobody yet. -/
theorem Held.start (h : c ∈ ring) : Held ring weaker c c := by
  obtain ⟨front, back, rfl⟩ := append_of_mem h
  refine ⟨[], back ++ front, ?_, rfl, by simp⟩
  exact @isRotated_append _ front (c :: back)

/-- What a member hands on goes to the next one. -/
theorem Held.follows (hnodup : ring.Nodup) (h : Held ring weaker c d) (hnext : Follows ring d e) :
    Arrived ring weaker c e := by
  obtain ⟨passed, rest, hrot, hlast, hweaker⟩ := h
  refine ⟨passed, rest, hrot, ?_, hweaker⟩
  obtain ⟨front, hfront⟩ := getLast?_eq_some_iff.mp hlast
  have hat : ring ~r d :: (rest ++ front) := by
    refine hrot.trans ?_
    rw [hfront, append_assoc]
    exact isRotated_append
  have hhead := hnext.rest_eq hnodup hat
  rw [append_assoc, ← hfront] at hhead
  rw [← hhead, head?_append, head?_append]
  rfl

theorem Arrived.mem (h : Arrived ring weaker c d) : d ∈ ring ∧ c ∈ ring := by
  obtain ⟨passed, rest, hrot, hhead, -⟩ := h
  have hmem := mem_of_mem_head? (Option.mem_def.mpr hhead)
  rw [hrot.mem_iff, hrot.mem_iff]
  refine ⟨?_, mem_append_left _ mem_cons_self⟩
  rcases mem_append.mp hmem with hrest | hhome
  · exact mem_append_right _ hrest
  · rw [mem_singleton.mp hhome]
    exact mem_append_left _ mem_cons_self

/-- A weaker member takes the candidacy up. -/
theorem Arrived.hold (h : Arrived ring weaker c d) (hirrefl : ¬ weaker c c) (hd : weaker d c) :
    Held ring weaker c d := by
  obtain ⟨passed, rest, hrot, hhead, hweaker⟩ := h
  cases rest with
  | nil =>
    obtain rfl : c = d := Option.some.inj hhead
    exact absurd hd hirrefl
  | cons x rest =>
    obtain rfl : x = d := Option.some.inj hhead
    refine ⟨passed ++ [x], rest, ?_, ?_, ?_⟩
    · rwa [← List.cons_append, append_assoc, singleton_append]
    · rw [← List.cons_append, getLast?_append_of_ne_nil _ (by simp), getLast?_singleton]
    · intro y hy
      rcases mem_append.mp hy with hy | hy
      · exact hweaker y hy
      · rwa [mem_singleton.mp hy]

/-- **A candidacy that comes home has beaten everybody.** -/
theorem Arrived.strongest (hnodup : ring.Nodup) (h : Arrived ring weaker c c) :
    Strongest ring weaker c := by
  refine ⟨h.mem.2, ?_⟩
  obtain ⟨passed, rest, hrot, hhead, hweaker⟩ := h
  cases rest with
  | nil =>
    intro x hx hne
    rw [append_nil] at hrot
    exact hweaker x ((mem_cons.mp (hrot.mem_iff.mp hx)).resolve_left hne)
  | cons x rest =>
    -- then `c` would be in the ring twice
    obtain rfl : x = c := Option.some.inj hhead
    have hdup := hrot.nodup_iff.mp hnodup
    simp at hdup

/-- There is one strongest member at most. -/
theorem Strongest.unique (hasymm : ∀ x y, weaker x y → ¬ weaker y x)
    (hc : Strongest ring weaker c) (hd : Strongest ring weaker d) : c = d := by
  by_contra hne
  exact hasymm _ _ (hd.2 c hc.1 hne) (hc.2 d hd.1 (Ne.symm hne))

/-! ### Once around -/

/-- **A walk around the ring.**  What can always be brought from a member to the next one, up to
    `c`, can be brought all the way from `c` to the member before it. -/
theorem around {σ : Type} (Reach : σ → σ → Prop) (P : List α → α → σ → Prop)
    (hrefl : ∀ s, Reach s s) (htrans : ∀ s t u, Reach s t → Reach t u → Reach s u)
    (hnodup : ring.Nodup)
    (hop : ∀ visited d e s, P visited d s → Follows ring d e → e ≠ c →
      ∃ s', Reach s s' ∧ P (visited ++ [e]) e s')
    {s : σ} (hc : c ∈ ring) (h : P [c] c s) :
    ∃ visited d s', Reach s s' ∧ P visited d s' ∧ Follows ring d c ∧ ring ~r visited := by
  -- the members ahead are visited one after the other
  have key : ∀ (rest front : List α) (d : α) (s : σ), ring ~r (front ++ [d]) ++ rest →
      (front ++ [d]).head? = some c → P (front ++ [d]) d s →
      ∃ visited d' s', Reach s s' ∧ P visited d' s' ∧ Follows ring d' c ∧ ring ~r visited := by
    intro rest
    induction rest with
    | nil =>
      intro front d s hrot hhead hP
      rw [append_nil] at hrot
      exact ⟨_, d, s, hrefl s, hP, ⟨front, hrot.trans isRotated_append, hhead⟩, hrot⟩
    | cons e rest ih =>
      intro front d s hrot hhead hP
      have hfollows : Follows ring d e := by
        refine ⟨e :: rest ++ front, hrot.trans ?_, rfl⟩
        rw [append_assoc]
        exact @isRotated_append _ front (d :: e :: rest)
      have hne : e ≠ c := by
        rintro rfl
        have hdup := hrot.nodup_iff.mp hnodup
        obtain ⟨tail, htail⟩ := head?_eq_some_iff.mp hhead
        rw [htail] at hdup
        simp at hdup
      obtain ⟨s₁, hreach, hP₁⟩ := hop _ d e s hP hfollows hne
      obtain ⟨visited, d', s', hreach', hrest⟩ := ih (front ++ [d]) e s₁
        (by rwa [append_assoc _ [e], singleton_append])
        (by rw [head?_append, hhead]; rfl) hP₁
      exact ⟨visited, d', s', htrans _ _ _ hreach hreach', hrest⟩
  obtain ⟨front, back, rfl⟩ := append_of_mem hc
  exact key (back ++ front) [] c s (@isRotated_append _ front (c :: back)) rfl h

end RingElection

end ShareCompute.Library
