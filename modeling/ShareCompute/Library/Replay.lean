import ShareCompute.Library.Runs

namespace ShareCompute.Library

/-!
# Replaying events

An object that reports what happens to it as events can be followed from outside: whoever
reads the events keeps a view of it, and every event changes the view.

* `Mirror` — such a view with its update, and with what an event may assume of the view it
  meets.
* `Mirror.replay`, `Mirror.Admits` — the view after some events, and that each of them was
  met by a view it fits.
* `Machine.replay_events` — if every call reports its own effect on the view, the events of
  a whole run give back the view of the state reached; `Machine.replays_iff` is the converse.
-/

/-- A view `ν` kept from events `ε`; `fits` is what an event assumes of the view it meets. -/
structure Mirror (ν ε : Type) where
  apply : ν → ε → ν
  fits : ν → ε → Prop

namespace Mirror

variable {ν ε : Type} (m : Mirror ν ε)

/-- The view after the events `es`, applied one after the other. -/
def replay (v : ν) (es : List ε) : ν := es.foldl m.apply v

/-- Every event is met by a view it fits. -/
def Admits : ν → List ε → Prop
  | _, [] => True
  | v, e :: es => m.fits v e ∧ Admits (m.apply v e) es

/-- Without events the view stays, where the induction over events begins. -/
@[simp] theorem replay_nil (v : ν) : m.replay v [] = v := rfl

/-- Events are followed one after the other. -/
@[simp] theorem replay_cons (v : ν) (e : ε) (es : List ε) :
    m.replay v (e :: es) = m.replay (m.apply v e) es := rfl

/-- Following two lists of events is to follow the one and then the other. -/
theorem replay_append (v : ν) (es fs : List ε) :
    m.replay v (es ++ fs) = m.replay (m.replay v es) fs := List.foldl_append

/-- Every view admits no events, where the induction over events begins. -/
@[simp] theorem admits_nil (v : ν) : m.Admits v [] := trivial

/-- A view admits events when the first one fits it, and what it becomes admits the others. -/
@[simp] theorem admits_cons (v : ν) (e : ε) (es : List ε) :
    m.Admits v (e :: es) ↔ m.fits v e ∧ m.Admits (m.apply v e) es := Iff.rfl

/-- A view admits two lists of events when it admits the one, and what that makes of it admits the
    other. -/
theorem admits_append (v : ν) (es fs : List ε) :
    m.Admits v (es ++ fs) ↔ m.Admits v es ∧ m.Admits (m.replay v es) fs := by
  induction es generalizing v with
  | nil => simp
  | cons e es ih => simp [ih, and_assoc]

/-- Read off an event in the middle. -/
theorem Admits.fits {v : ν} {pre post : List ε} {e : ε} (h : m.Admits v (pre ++ e :: post)) :
    m.fits (m.replay v pre) e :=
  ((m.admits_append v pre (e :: post)).mp h).2.1

end Mirror

namespace Machine

variable {σ α ν ε : Type} (m : Machine σ α (List ε)) (mirror : Mirror ν ε) (view : σ → ν)

/-- All events the calls of a run returned, oldest first. -/
def events (h : List (Entry σ α (List ε))) : List ε := h.flatMap Entry.returned

/-- The events of a history with one call more are those of the calls before and then those of the
    call. -/
@[simp] theorem events_snoc (h : List (Entry σ α (List ε))) (e : Entry σ α (List ε)) :
    events (h ++ [e]) = events h ++ e.returned := by
  simp [events]

/-- The events of a call report its effect on the view. -/
def Reports (e : Entry σ α (List ε)) : Prop :=
  mirror.replay (view e.before) e.returned = view e.after

/-- **Replay.**  When every call of a run reports its effect, the events of the run lead
    from the first view to the view of the state reached. -/
theorem replay_events (s : σ) (as : List α)
    (h : ∀ e ∈ m.history s as, Reports mirror view e) :
    mirror.replay (view s) (events (m.history s as)) = view (m.exec s as) := by
  refine m.run_induction (P := Reports mirror view)
    (I := fun h s' => mirror.replay (view s) (events h) = view s') rfl ?_ as h
  intro h s' a ih hreports
  rw [events_snoc, mirror.replay_append, ih]
  exact hreports

/-- Replay gives the right view after every call of a run exactly when every call reports
    its effect. -/
theorem replays_iff (s : σ) (as : List α) :
    (∀ pre post, as = pre ++ post →
      mirror.replay (view s) (events (m.history s pre)) = view (m.exec s pre)) ↔
    ∀ e ∈ m.history s as, Reports mirror view e := by
  constructor
  · intro h e he
    obtain ⟨pre, a, post, rfl, rfl⟩ := m.mem_history.mp he
    -- the views before and after the call are both right, so the call's own events lead
    -- from the one to the other
    have hbefore := h pre (a :: post) rfl
    have hafter := h (pre ++ [a]) post (by simp)
    rw [m.history_snoc, m.exec_snoc, events_snoc, mirror.replay_append, hbefore] at hafter
    exact hafter
  · rintro h pre post rfl
    refine m.replay_events mirror view s pre fun e he => h e ?_
    rw [m.history_append]
    exact List.mem_append_left _ he

/-- **Admission.**  When moreover every call's events fit the view they meet, so do those of
    the run. -/
theorem admits_events (s : σ) (as : List α)
    (h : ∀ e ∈ m.history s as, Reports mirror view e ∧ mirror.Admits (view e.before) e.returned) :
    mirror.Admits (view s) (events (m.history s as)) := by
  have hrun := m.run_induction
    (P := fun e => Reports mirror view e ∧ mirror.Admits (view e.before) e.returned)
    (I := fun h s' => mirror.replay (view s) (events h) = view s' ∧
      mirror.Admits (view s) (events h)) ⟨rfl, trivial⟩ ?_ as h
  · exact hrun.2
  · rintro h s' a ⟨hview, hadmits⟩ ⟨hreports, hfits⟩
    rw [events_snoc, mirror.replay_append, mirror.admits_append, hview]
    exact ⟨hreports, hadmits, hfits⟩

end Machine

end ShareCompute.Library
