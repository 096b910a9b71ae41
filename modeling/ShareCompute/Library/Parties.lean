import ShareCompute.Library.Runs
import Mathlib.Logic.Function.Basic

namespace ShareCompute.Library

/-!
# Parties that do not disturb each other

Every party has a state of its own, which it alone changes.  For its next step it may look at
what the others have published, and it waits for what is missing there; what is published only
grows.  So a step that is possible stays possible, with the same result, whatever the others do
in the meantime, and the order of the steps does not matter:

* `step_comm` — the steps of two parties commute.
* `Run.completes` — once one run has come to an end, any other run can be brought to the same
  end, in as many steps altogether.
* `Run.unique`, `Run.length_le` — so there is one end, and no run is longer.
-/

/-- Parties that work side by side, where what one of them can do next does not depend on how far
    the others have got beyond that. -/
structure Parties (ι σ : Type) [DecidableEq ι] where
  /-- what a party becomes with its next step, unless it has to wait or is done -/
  next : (ι → σ) → ι → Option σ
  /-- the second state of a party has published what the first one has -/
  Grows : σ → σ → Prop
  next_grows : ∀ s i t, next s i = some t → Grows (s i) t
  /-- whatever another party publishes, the next step of a party is the same -/
  next_stable : ∀ s i j t u, i ≠ j → next s i = some t → Grows (s j) u →
    next (Function.update s j u) i = some t

namespace Parties

variable {ι σ : Type} [DecidableEq ι] (p : Parties ι σ)

/-- One party takes its next step, and the others are where they were. -/
def step (s : ι → σ) (i : ι) : Option (ι → σ) := (p.next s i).map (Function.update s i)

/-- The parties `run`, in this order, make a step each. -/
abbrev Run (s : ι → σ) (run : List ι) (t : ι → σ) : Prop :=
  Trace (fun s i s' => p.step s i = some s') s run t

/-- No party can make a step: the run has come to its end. -/
def Stuck (s : ι → σ) : Prop := ∀ i, p.step s i = none

variable {p} {s s₁ s₂ t u : ι → σ} {i j : ι} {run other : List ι}

/-- A step is the next state of a party in the place of its old one. -/
theorem step_eq_some : p.step s i = some t ↔
    ∃ a, p.next s i = some a ∧ Function.update s i a = t := by
  rw [step, Option.map_eq_some_iff]

/-- A party that has no next state cannot step. -/
theorem step_eq_none : p.step s i = none ↔ p.next s i = none := by
  rw [step, Option.map_eq_none_iff]

/-- **Diamond.**  Steps of two parties can be taken in either order, and lead to the same state. -/
theorem step_comm (hne : i ≠ j) (hi : p.step s i = some s₁) (hj : p.step s j = some s₂) :
    ∃ s', p.step s₁ j = some s' ∧ p.step s₂ i = some s' := by
  obtain ⟨a, ha, rfl⟩ := step_eq_some.mp hi
  obtain ⟨b, hb, rfl⟩ := step_eq_some.mp hj
  have hb' := p.next_stable s j i b a hne.symm hb (p.next_grows s i a ha)
  have ha' := p.next_stable s i j a b hne ha (p.next_grows s j b hb)
  refine ⟨Function.update (Function.update s i a) j b, ?_, ?_⟩
  · exact step_eq_some.mpr ⟨b, hb', rfl⟩
  · exact step_eq_some.mpr ⟨a, ha', Function.update_comm hne.symm b a s⟩

namespace Run

/-- One step is a run, that of the party which takes it. -/
theorem single (h : p.step s i = some t) : p.Run s [i] t := Trace.cons h .nil

/-- After one step, whichever it is, the end of a run is one step nearer. -/
theorem after_step (h : p.Run s run t) (hstuck : p.Stuck t)
    (hi : p.step s i = some s₁) :
    ∃ rest, rest.length + 1 = run.length ∧ p.Run s₁ rest t := by
  induction run generalizing s s₁ with
  | nil =>
    obtain rfl := Trace.eq_of_nil h
    rw [hstuck i] at hi
    simp at hi
  | cons j run ih =>
    obtain ⟨s₂, hj, hrest⟩ := Trace.uncons h
    by_cases hij : i = j
    · -- the step is the one that the run begins with
      subst hij
      rw [hi, Option.some.injEq] at hj
      subst hj
      exact ⟨run, rfl, hrest⟩
    · -- it can be made after the first step as well, and the first step after it
      obtain ⟨s', hj', hi'⟩ := step_comm hij hi hj
      obtain ⟨rest, hlength, hrun⟩ := ih hrest hi'
      refine ⟨j :: rest, ?_, Trace.cons hj' hrun⟩
      rw [List.length_cons, List.length_cons, hlength]

/-- **Completion.**  If one run ends where nobody can go on, every other run can be completed to
    that end. -/
theorem completes (h : p.Run s run t) (hstuck : p.Stuck t)
    (hother : p.Run s other u) :
    ∃ rest, p.Run u rest t ∧ other.length + rest.length = run.length := by
  induction hother with
  | nil => exact ⟨run, h, by simp⟩
  | snoc _ hi ih =>
    obtain ⟨rest, hrun, hlength⟩ := ih
    obtain ⟨rest', hlength', hrun'⟩ := after_step hrun hstuck hi
    refine ⟨rest', hrun', ?_⟩
    rw [List.length_append, List.length_singleton]
    omega

/-- No run from the same start is longer than one that got stuck. -/
theorem length_le (h : p.Run s run t) (hstuck : p.Stuck t)
    (hother : p.Run s other u) : other.length ≤ run.length := by
  obtain ⟨rest, -, hlength⟩ := completes h hstuck hother
  omega

/-- All runs that get stuck end in the same state. -/
theorem unique (h : p.Run s run t) (hstuck : p.Stuck t)
    (hother : p.Run s other u) (hend : p.Stuck u) : u = t := by
  obtain ⟨rest, hrest, -⟩ := completes h hstuck hother
  cases rest with
  | nil => exact (Trace.eq_of_nil hrest).symm
  | cons i rest =>
    obtain ⟨s', hi, -⟩ := Trace.uncons hrest
    rw [hend i] at hi
    simp at hi

end Run

end Parties

end ShareCompute.Library
