import Mathlib.Data.List.Infix

namespace ShareCompute.Library

/-!
# A ring of stages

Stage 0 sends items into a pipeline of stages and accepts them from the last one.  All that is
known of a run is what each stage has accepted and what it has sent: links lose nothing and
keep the order, and a stage works on what it accepts, one item after the other.

* `StageRing.through` — what the stages make of an item.
* `StageRing.Conserved` — the law of the links and of the stages, at any moment of a run.
* `Conserved.accepted_through` — what stage 0 accepts is what it has sent, taken through all.
* `Conserved.complete` — once it has accepted as much as it has sent, no stage is behind.
-/

namespace StageRing

variable {α : Type}

/-- What stages 1 to `r` make of an item, one after the other. -/
def through (stage : ℕ → α → α) : ℕ → α → α
  | 0, item => item
  | r + 1, item => stage (r + 1) (through stage r item)

/-- `n` stages: what each of them has accepted, and what it has sent. -/
structure Conserved (n : ℕ) (stage : ℕ → α → α) (accepted sent : ℕ → List α) : Prop where
  link : ∀ r, r + 1 < n → accepted (r + 1) <+: sent r
  back : accepted 0 <+: sent (n - 1)
  work : ∀ r, 0 < r → r < n → sent r <+: (accepted r).map (stage r)

namespace Conserved

variable {n : ℕ} {stage : ℕ → α → α} {accepted sent : ℕ → List α}

/-- What a stage has sent is what stage 0 has, taken through the stages up to it. -/
theorem sent_through (h : Conserved n stage accepted sent) {r : ℕ} (hr : r < n) :
    sent r <+: (sent 0).map (through stage r) := by
  induction r with
  | zero =>
    have hid : through stage 0 = id := rfl
    rw [hid, List.map_id]
  | succ r ih =>
    calc sent (r + 1)
        <+: (accepted (r + 1)).map (stage (r + 1)) := h.work (r + 1) (Nat.succ_pos r) hr
      _ <+: (sent r).map (stage (r + 1)) := (h.link r hr).map _
      _ <+: ((sent 0).map (through stage r)).map (stage (r + 1)) :=
          (ih (by omega)).map _
      _ = (sent 0).map (through stage (r + 1)) := List.map_map

theorem accepted_through (h : Conserved n stage accepted sent) (hn : 0 < n) :
    accepted 0 <+: (sent 0).map (through stage (n - 1)) :=
  h.back.trans (h.sent_through (by omega))

/-- No stage has sent less than stage 0 has accepted. -/
theorem length_accepted_le (h : Conserved n stage accepted sent) {r : ℕ} (hr : r < n) :
    (accepted 0).length ≤ (sent r).length := by
  -- from the last stage backwards
  have key : ∀ d, d < n → (accepted 0).length ≤ (sent (n - 1 - d)).length := by
    intro d hd
    induction d with
    | zero => exact h.back.length_le
    | succ d ih =>
      have hnext : n - 1 - (d + 1) + 1 = n - 1 - d := by omega
      have hwork := (h.work (n - 1 - d) (by omega) (by omega)).length_le
      have hlink := (h.link (n - 1 - (d + 1)) (by omega)).length_le
      rw [hnext] at hlink
      rw [List.length_map] at hwork
      have hbehind := ih (by omega)
      omega
  have hindex : n - 1 - (n - 1 - r) = r := by omega
  have hle := key (n - 1 - r) (by omega)
  rwa [hindex] at hle

/-- **Completion.**  If everything that was sent first has come back, every stage has handled all of
    it. -/
theorem complete (h : Conserved n stage accepted sent)
    (hall : (sent 0).length ≤ (accepted 0).length) {r : ℕ} (hr : r < n) :
    sent r = (sent 0).map (through stage r) := by
  apply (h.sent_through hr).eq_of_length_le
  rw [List.length_map]
  exact hall.trans (h.length_accepted_le hr)

end Conserved

end StageRing

end ShareCompute.Library
