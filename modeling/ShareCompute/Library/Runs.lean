import Mathlib.Data.List.Basic
import Mathlib.Data.List.Chain
import Mathlib.Data.List.Induction
import Mathlib.Data.List.Count

namespace ShareCompute.Library

/-!
# Runs

Two shapes of run, with the induction rule each development needs once.

* `Machine` — an object whose methods are called one after the other.  A run is the list
  of calls; `history` records, call by call, the state before, what was returned and the
  state after, so that a law about the calls made so far can be stated over it.
* `Trace` — a labelled transition system, for parties that interleave.  The labels of a
  trace are the observable events, and `Trace.at_most_once` is the usual reason why one of
  them cannot occur twice.
-/

/-! ### Objects called one method at a time -/

/-- An object with state `σ`, calls `α` and returned values `ο`. -/
structure Machine (σ α ο : Type) where
  step : σ → α → σ × ο

/-- One call of a run, with the states before and after it and what it returned. -/
structure Entry (σ α ο : Type) where
  before : σ
  call : α
  returned : ο
  after : σ

namespace Machine

variable {σ α ο : Type} (m : Machine σ α ο)

/-- The record of calling `a` in state `s`. -/
def entry (s : σ) (a : α) : Entry σ α ο := ⟨s, a, (m.step s a).2, (m.step s a).1⟩

@[simp] theorem entry_before (s : σ) (a : α) : (m.entry s a).before = s := rfl
@[simp] theorem entry_call (s : σ) (a : α) : (m.entry s a).call = a := rfl
@[simp] theorem entry_returned (s : σ) (a : α) : (m.entry s a).returned = (m.step s a).2 := rfl
@[simp] theorem entry_after (s : σ) (a : α) : (m.entry s a).after = (m.step s a).1 := rfl

/-- The state after the calls `as`, made one after the other. -/
def exec (s : σ) : List α → σ
  | [] => s
  | a :: as => exec (m.step s a).1 as

/-- The record of the calls `as`, one entry for each of them. -/
def history (s : σ) : List α → List (Entry σ α ο)
  | [] => []
  | a :: as => m.entry s a :: history (m.step s a).1 as

/-- Without calls the object is as it was. -/
@[simp] theorem exec_nil (s : σ) : m.exec s [] = s := rfl
/-- Without calls there is no history, where the induction over calls begins. -/
@[simp] theorem history_nil (s : σ) : m.history s [] = [] := rfl

/-- Calls behind each other: the second ones find the object as the first ones left it. -/
theorem exec_append (s : σ) (as bs : List α) :
    m.exec s (as ++ bs) = m.exec (m.exec s as) bs := by
  induction as generalizing s with
  | nil => rfl
  | cons a as ih => exact ih _

/-- The history of calls behind each other is that of the first ones and then that of the second. -/
theorem history_append (s : σ) (as bs : List α) :
    m.history s (as ++ bs) = m.history s as ++ m.history (m.exec s as) bs := by
  induction as generalizing s with
  | nil => rfl
  | cons a as ih => exact congrArg (m.entry s a :: ·) (ih _)

/-- One call more is a step from where the others led to. -/
@[simp] theorem exec_snoc (s : σ) (as : List α) (a : α) :
    m.exec s (as ++ [a]) = (m.step (m.exec s as) a).1 := m.exec_append s as [a]

/-- One call more adds its entry at the end of the history. -/
@[simp] theorem history_snoc (s : σ) (as : List α) (a : α) :
    m.history s (as ++ [a]) = m.history s as ++ [m.entry (m.exec s as) a] :=
  m.history_append s as [a]

/-- There is one entry in the history for each call. -/
@[simp] theorem length_history (s : σ) (as : List α) : (m.history s as).length = as.length := by
  induction as generalizing s with
  | nil => rfl
  | cons a as ih => simp [history, ih]

/-- **Run induction.**  `I` relates the calls made so far to the state they led to.  It
    holds along every run whose calls all meet `P`, once it holds at the start and each
    such call keeps it. -/
theorem run_induction {P : Entry σ α ο → Prop} {I : List (Entry σ α ο) → σ → Prop} {s : σ}
    (hinit : I [] s)
    (hstep : ∀ h s' a, I h s' → P (m.entry s' a) → I (h ++ [m.entry s' a]) (m.step s' a).1)
    (as : List α) (hP : ∀ e ∈ m.history s as, P e) : I (m.history s as) (m.exec s as) := by
  induction as using List.reverseRecOn with
  | nil => exact hinit
  | append_singleton as a ih =>
    rw [history_snoc] at hP
    rw [history_snoc, exec_snoc]
    refine hstep _ _ a (ih fun e he => hP e (List.mem_append_left _ he)) (hP _ ?_)
    exact List.mem_append_right _ (List.mem_singleton_self _)

/-- Run induction for a property of the state that every call keeps. -/
theorem invariant {I : σ → Prop} {s : σ} (hinit : I s)
    (hstep : ∀ s' a, I s' → I (m.step s' a).1) (as : List α) : I (m.exec s as) :=
  m.run_induction (P := fun _ => True) (I := fun _ => I) hinit
    (fun _ s' a hI _ => hstep s' a hI) as (fun _ _ => trivial)

/-- Every entry of a history is a call made in the state its predecessors led to. -/
theorem mem_history {s : σ} {as : List α} {e : Entry σ α ο} :
    e ∈ m.history s as ↔ ∃ pre a post, as = pre ++ a :: post ∧ e = m.entry (m.exec s pre) a := by
  constructor
  · induction as generalizing s with
    | nil => simp
    | cons a as ih =>
      intro he
      rcases List.mem_cons.mp he with rfl | he
      · exact ⟨[], a, as, rfl, rfl⟩
      · obtain ⟨pre, b, post, rfl, rfl⟩ := ih he
        exact ⟨a :: pre, b, post, rfl, rfl⟩
  · rintro ⟨pre, a, post, rfl, rfl⟩
    rw [history_append]
    exact List.mem_append_right _ (List.mem_cons_self ..)

/-- Where a history splits at an entry, the run splits at its call. -/
theorem history_split {s : σ} {as : List α} {h h' : List (Entry σ α ο)} {e : Entry σ α ο}
    (heq : m.history s as = h ++ e :: h') : ∃ pre a post, as = pre ++ a :: post ∧
      h = m.history s pre ∧ e = m.entry (m.exec s pre) a ∧
      h' = m.history (m.exec s (pre ++ [a])) post := by
  induction as generalizing s h with
  | nil => simp at heq
  | cons a as ih =>
    rw [history] at heq
    cases h with
    | nil =>
      obtain ⟨rfl, rfl⟩ := List.cons.inj heq
      exact ⟨[], a, as, rfl, rfl, rfl, rfl⟩
    | cons e₁ h =>
      obtain ⟨rfl, htail⟩ := List.cons.inj heq
      obtain ⟨pre, b, post, rfl, rfl, rfl, rfl⟩ := ih htail
      exact ⟨a :: pre, b, post, rfl, rfl, rfl, rfl⟩

/-! An object that works through another one. -/

variable {τ β π : Type} (m' : Machine τ β π)

/-- The calls that `m` makes of its inner object, where `calls s a` are those of one call. -/
def innerCalls (calls : σ → α → List β) (s : σ) (as : List α) : List β :=
  (m.history s as).flatMap (fun e => calls e.before e.call)

/-- **Refinement.**  If every call moves the inner object by the calls it makes of it, a run
    moves it by all of them. -/
theorem inner_exec (inner : σ → τ) {calls : σ → α → List β}
    (h : ∀ s a, inner (m.step s a).1 = m'.exec (inner s) (calls s a)) (s : σ) (as : List α) :
    inner (m.exec s as) = m'.exec (inner s) (m.innerCalls calls s as) := by
  induction as generalizing s with
  | nil => rfl
  | cons a as ih =>
    rw [innerCalls, history, List.flatMap_cons, m'.exec_append]
    exact (ih _).trans (congrArg (m'.exec · _) (h s a))

end Machine

/-- Consecutive entries of a log that grows at its end. -/
theorem isChain_snoc {α : Type} {R : α → α → Prop} {l : List α} {b : α} :
    (l ++ [b]).IsChain R ↔ l.IsChain R ∧ ∀ a ∈ l.getLast?, R a b := by
  simp [List.isChain_append]

/-! ### Labelled transition systems -/

/-- `Trace step s₀ ls s`: the steps labelled `ls` lead from `s₀` to `s`. -/
inductive Trace {σ ℓ : Type} (step : σ → ℓ → σ → Prop) (s₀ : σ) : List ℓ → σ → Prop
  | nil : Trace step s₀ [] s₀
  | snoc {ls : List ℓ} {s s' : σ} {l : ℓ} :
      Trace step s₀ ls s → step s l s' → Trace step s₀ (ls ++ [l]) s'

namespace Trace

variable {σ ℓ : Type} {step : σ → ℓ → σ → Prop} {s₀ s : σ} {ls : List ℓ}

/-- **Trace induction.**  `I` relates the labels so far to the state reached. -/
theorem invariant {I : List ℓ → σ → Prop} (hinit : I [] s₀)
    (hstep : ∀ ls s l s', Trace step s₀ ls s → I ls s → step s l s' → I (ls ++ [l]) s')
    (h : Trace step s₀ ls s) : I ls s := by
  induction h with
  | nil => exact hinit
  | snoc htrace hs ih => exact hstep _ _ _ _ htrace ih hs

/-- A trace of some steps is one of more steps. -/
theorem mono {step' : σ → ℓ → σ → Prop} (hle : ∀ s l s', step s l s' → step' s l s')
    (h : Trace step s₀ ls s) : Trace step' s₀ ls s := by
  induction h with
  | nil => exact .nil
  | snoc _ hs ih => exact .snoc ih (hle _ _ _ hs)

/-- A trace can be extended at its start. -/
theorem cons {l : ℓ} {s₁ : σ} (hs : step s₀ l s₁) (h : Trace step s₁ ls s) :
    Trace step s₀ (l :: ls) s := by
  induction h with
  | nil => exact .snoc .nil hs
  | snoc _ hs' ih => exact .snoc ih hs'

/-- Traces join end to end, where the one ends in the state in which the other begins. -/
theorem append {ls' : List ℓ} {s' : σ} (h : Trace step s₀ ls s) (h' : Trace step s ls' s') :
    Trace step s₀ (ls ++ ls') s' := by
  induction h' with
  | nil => rwa [List.append_nil]
  | snoc _ hs ih =>
    rw [← List.append_assoc]
    exact .snoc ih hs

/-- A run without labels has not moved. -/
theorem eq_of_nil (h : Trace step s₀ [] s) : s = s₀ := by
  generalize hls : ([] : List ℓ) = ls at h
  cases h with
  | nil => rfl
  | snoc htrace hs => simp at hls

/-- The first step of a trace, and the trace after it. -/
theorem uncons {l : ℓ} (h : Trace step s₀ (l :: ls) s) :
    ∃ s₁, step s₀ l s₁ ∧ Trace step s₁ ls s := by
  generalize hls : l :: ls = ls' at h
  induction h generalizing ls with
  | nil => simp at hls
  | @snoc ls₁ s₁ s₂ l' htrace hs ih =>
    cases ls₁ with
    | nil =>
      -- the last step is the first one
      obtain ⟨rfl, rfl⟩ := List.cons.inj hls
      obtain rfl := eq_of_nil htrace
      exact ⟨s₂, hs, .nil⟩
    | cons l₁ ls₁ =>
      obtain ⟨rfl, rfl⟩ := List.cons.inj hls
      obtain ⟨s₃, hfirst, hrest⟩ := ih rfl
      exact ⟨s₃, hfirst, .snoc hrest hs⟩

/-- A label of a trace was the label of a step taken from a state on the way. -/
theorem exists_step {l : ℓ} (h : Trace step s₀ ls s) (hl : l ∈ ls) :
    ∃ pre post s₁ s₂, ls = pre ++ l :: post ∧ Trace step s₀ pre s₁ ∧ step s₁ l s₂ := by
  induction h with
  | nil => simp at hl
  | @snoc ls s₁ s₂ l' htrace hs ih =>
    rcases List.mem_append.mp hl with hl | hl
    · obtain ⟨pre, post, t₁, t₂, rfl, hpre, ht⟩ := ih hl
      exact ⟨pre, post ++ [l'], t₁, t₂, by simp, hpre, ht⟩
    · rw [List.mem_singleton] at hl
      subst hl
      exact ⟨ls, [], s₁, s₂, rfl, htrace, hs⟩

/-- **At most once.**  If an event puts the system in a state `Q`, no step leaves `Q`, and
    the event cannot occur in `Q`, then it occurs at most once in every trace. -/
theorem at_most_once {p : ℓ → Bool} (Q : σ → Prop)
    (establish : ∀ ls s l s', Trace step s₀ ls s → step s l s' → p l = true → Q s')
    (keep : ∀ ls s l s', Trace step s₀ ls s → step s l s' → Q s → Q s')
    (exclude : ∀ ls s l s', Trace step s₀ ls s → step s l s' → p l = true → ¬ Q s)
    (h : Trace step s₀ ls s) : ls.countP p ≤ 1 := by
  -- after the first occurrence the system is in `Q`, so the count cannot grow again
  have key : ls.countP p = 0 ∨ (ls.countP p = 1 ∧ Q s) := by
    refine invariant (I := fun ls s => ls.countP p = 0 ∨ (ls.countP p = 1 ∧ Q s)) (.inl rfl) ?_ h
    intro ls s l s' htrace ih hs
    rw [List.countP_append, List.countP_singleton]
    cases hp : p l with
    | false =>
      rcases ih with h0 | ⟨h1, hQ⟩
      · exact .inl (by simp [h0])
      · exact .inr ⟨by simp [h1], keep ls s l s' htrace hs hQ⟩
    | true =>
      rcases ih with h0 | ⟨_, hQ⟩
      · exact .inr ⟨by simp [h0], establish ls s l s' htrace hs hp⟩
      · exact absurd hQ (exclude ls s l s' htrace hs hp)
  omega

/-- **Only so often.**  A measure that no step increases bounds how often the steps that decrease
    it are taken. -/
theorem countP_add_le {p : ℓ → Bool} {I : σ → Prop} (measure : σ → ℕ) (hinit : I s₀)
    (hstep : ∀ s l s', I s → step s l s' →
      I s' ∧ measure s' + (if p l = true then 1 else 0) ≤ measure s)
    (h : Trace step s₀ ls s) : I s ∧ measure s + ls.countP p ≤ measure s₀ := by
  induction h with
  | nil => exact ⟨hinit, le_refl _⟩
  | snoc _ hs ih =>
    obtain ⟨hkept, hle⟩ := hstep _ _ _ ih.1 hs
    refine ⟨hkept, ?_⟩
    rw [List.countP_append, List.countP_singleton]
    omega

/-! Where the steps are those of a partial function, a trace can be computed. -/

variable {α ε : Type}

/-- The labels and the state after the actions `as`, if all of them are possible. -/
def perform (f : σ → α → Option (σ × ε)) (s : σ) : List α → Option (List (α × ε) × σ)
  | [] => some ([], s)
  | a :: as =>
      match f s a with
      | none => none
      | some (s', e) => (perform f s' as).map (fun result => ((a, e) :: result.1, result.2))

/-- A run that was computed is a run. -/
theorem of_perform {f : σ → α → Option (σ × ε)} {as : List α} {s s' : σ} {ls : List (α × ε)}
    (h : perform f s as = some (ls, s')) :
    Trace (fun s l s' => f s l.1 = some (s', l.2)) s ls s' := by
  induction as generalizing s ls with
  | nil =>
    obtain ⟨rfl, rfl⟩ := Prod.mk.inj (Option.some.inj h)
    exact .nil
  | cons a as ih =>
    rw [perform] at h
    split at h
    case h_1 => simp at h
    case h_2 s₁ e hs =>
      obtain ⟨⟨ls₁, s₂⟩, hperform, heq⟩ := Option.map_eq_some_iff.mp h
      obtain ⟨rfl, rfl⟩ := Prod.mk.inj heq
      exact cons hs (ih hperform)

/-- The same for steps that say nothing. -/
theorem of_foldlM {f : σ → α → Option σ} {as : List α} {s s' : σ}
    (h : as.foldlM f s = some s') : Trace (fun s a s' => f s a = some s') s as s' := by
  induction as generalizing s with
  | nil =>
    obtain rfl := Option.some.inj h
    exact .nil
  | cons a as ih =>
    rw [List.foldlM_cons] at h
    obtain ⟨s₁, hs, hrest⟩ := Option.bind_eq_some_iff.mp h
    exact cons hs (ih hrest)

end Trace

end ShareCompute.Library
