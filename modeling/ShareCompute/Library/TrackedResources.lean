import ShareCompute.Library.Runs
import Mathlib.Data.Finset.Basic

namespace ShareCompute.Library.Tracked

/-!
# Resources that a sweep closes

Owners make resources at any time, and a sweep has to close all of them at the end.  An owner first
adds its resource to a shared set and then looks at a flag; the sweep first sets the flag and then
goes through the set.  The set may change while the sweep goes through it: what was in the set when
the sweep began is visited, or has been removed; what was added later may be missed.

* `step` — one access of an owner or of the sweep.
* `Kept` — what every access keeps.
* `Kept.not_held` — no owner uses a resource that is open once a sweep has come to its end.
-/

/-- How far an owner has got with a resource. -/
inductive Stage
  | absent
  /-- it is there, and not in the set yet -/
  | created
  /-- it was added to the set, and the flag has not been read -/
  | registering
  /-- the flag was set -/
  | refused
  /-- the flag was not set, and the owner uses the resource -/
  | held
  /-- the owner has closed it and removed it from the set -/
  | released
deriving DecidableEq

/-- How far a sweep has got, which closes what is in the set. -/
inductive Sweep (R : Type)
  | idle
  /-- the flag is set -/
  | flagged
  /-- what was in the set when it began and has not been visited -/
  | visiting (todo : Finset R)
  | visited

/-- The flag, the set and the resources as all threads see them, and how far the one that closes has
    got. -/
structure State (R : Type) where
  /-- the flag -/
  closed : Bool
  stage : R → Stage
  /-- the shared set -/
  tracked : Finset R
  /-- the resource has not been closed -/
  isOpen : R → Bool
  sweep : Sweep R
  /-- a sweep has come to its end -/
  halted : Bool

/-- What can happen: an owner goes on with its resource, somebody else closes it, or the sweep goes
    on. -/
inductive Event (R : Type)
  | create (r : R)
  | register (r : R)
  | check (r : R)
  | discard (r : R)
  | release (r : R)
  /-- somebody who shares a resource closes it -/
  | close (r : R)
  | flag
  | begin
  | visit (r : R)
  | finish
  | clear

variable {R : Type}

/-- Nothing was created, the set is empty, and nobody has begun to close. -/
def init : State R where
  closed := false
  stage _ := .absent
  tracked := ∅
  isOpen _ := false
  sweep := .idle
  halted := false

variable [DecidableEq R]

/-- The owner of a resource has got on with it. -/
def State.setStage (s : State R) (r : R) (stage : Stage) : State R :=
  { s with stage := Function.update s.stage r stage }

/-- The resource is closed, by its owner or by a sweep. -/
def State.shut (s : State R) (r : R) : State R :=
  { s with isOpen := Function.update s.isOpen r false }

/-- The resource is removed from the set, by its owner. -/
def State.forget (s : State R) (r : R) : State R := { s with tracked := s.tracked.erase r }

/-- One step; none where the event is not possible in this state. -/
def step (s : State R) : Event R → Option (State R)
  | .create r =>
      if s.stage r = .absent then
        some { s.setStage r .created with isOpen := Function.update s.isOpen r true }
      else none
  | .register r =>
      if s.stage r = .created then
        some { s.setStage r .registering with tracked := insert r s.tracked }
      else none
  | .check r =>
      if s.stage r = .registering then
        some (s.setStage r (if s.closed then .refused else .held))
      else none
  | .discard r =>
      if s.stage r = .refused then some (((s.forget r).shut r).setStage r .released) else none
  | .release r =>
      if s.stage r = .held then some (((s.forget r).shut r).setStage r .released) else none
  | .close r => if s.stage r = .held then some (s.shut r) else none
  | .flag =>
      match s.sweep with
      | .idle => some { s with closed := true, sweep := .flagged }
      | _ => none
  | .begin =>
      match s.sweep with
      | .flagged => some { s with sweep := .visiting s.tracked }
      | _ => none
  | .visit r =>
      match s.sweep with
      | .visiting todo =>
          if r ∈ todo ∨ r ∈ s.tracked then
            some { s.shut r with sweep := .visiting (todo.erase r) }
          else none
      | _ => none
  | .finish =>
      match s.sweep with
      | .visiting todo =>
          if ∀ r ∈ todo, r ∉ s.tracked then some { s with sweep := .visited } else none
      | _ => none
  | .clear =>
      match s.sweep with
      | .visited => some { s with tracked := ∅, sweep := .idle, halted := true }
      | _ => none

/-! ### What is kept -/

/-- The sweep will still come to the resource. -/
def Awaits (s : State R) (r : R) : Prop :=
  s.halted = false ∧ r ∈ s.tracked ∧
    match s.sweep with
    | .idle => True
    | .flagged => True
    | .visiting todo => r ∈ todo
    | .visited => False

/-- What is true of the resources in every state. -/
structure Kept (s : State R) : Prop where
  flagged : s.closed = false → s.sweep = .idle ∧ s.halted = false
  /-- only what is in its owner's hands is open -/
  owned : ∀ r, s.isOpen r = true → s.stage r ≠ .absent ∧ s.stage r ≠ .released
  registering : ∀ r, s.stage r = .registering → s.closed = false → r ∈ s.tracked
  held : ∀ r, s.stage r = .held → s.isOpen r = true → Awaits s r

omit [DecidableEq R] in
/-- Before anything was created all of it holds. -/
theorem init_kept : Kept (init : State R) where
  flagged _ := ⟨rfl, rfl⟩
  owned _ h := by cases h
  registering _ h := by cases h
  held _ h := by cases h

omit [DecidableEq R] in
/-- A resource that the sweep has yet to close still waits for that, as long as the sweep is where
    it was and the set has lost nothing. -/
theorem Awaits.congr {s s' : State R} {r : R} (h : Awaits s r) (hhalted : s'.halted = s.halted)
    (hsweep : s'.sweep = s.sweep) (htracked : r ∈ s.tracked → r ∈ s'.tracked) :
    Awaits s' r := by
  rw [Awaits, hhalted, hsweep]
  exact ⟨h.1, htracked h.2.1, h.2.2⟩

/-- An owner goes on to another stage with its resource, and the sweep does nothing. -/
theorem Kept.owner_step {s s' : State R} (h : Kept s) {r : R} {stage : Stage}
    (hstage : s'.stage = Function.update s.stage r stage) (hclosed : s'.closed = s.closed)
    (hsweep : s'.sweep = s.sweep) (hhalted : s'.halted = s.halted)
    (hopen : ∀ other, other ≠ r → s'.isOpen other = s.isOpen other)
    (htracked : ∀ other, other ≠ r → other ∈ s.tracked → other ∈ s'.tracked)
    (howned : s'.isOpen r = true → stage ≠ .absent ∧ stage ≠ .released)
    (hregistering : stage = .registering → s.closed = false → r ∈ s'.tracked)
    (hheld : stage = .held → s'.isOpen r = true → Awaits s' r) : Kept s' where
  flagged := by
    rw [hclosed, hsweep, hhalted]
    exact h.flagged
  owned := by
    intro other hother
    rw [hstage]
    by_cases heq : other = r
    · subst heq
      rw [Function.update_self]
      exact howned hother
    · rw [Function.update_of_ne heq]
      rw [hopen other heq] at hother
      exact h.owned other hother
  registering := by
    intro other hother hflag
    rw [hstage] at hother
    rw [hclosed] at hflag
    by_cases heq : other = r
    · subst heq
      rw [Function.update_self] at hother
      exact hregistering hother hflag
    · rw [Function.update_of_ne heq] at hother
      exact htracked other heq (h.registering other hother hflag)
  held := by
    intro other hother hisOpen
    rw [hstage] at hother
    by_cases heq : other = r
    · subst heq
      rw [Function.update_self] at hother
      exact hheld hother hisOpen
    · rw [Function.update_of_ne heq] at hother
      rw [hopen other heq] at hisOpen
      exact (h.held other hother hisOpen).congr hhalted hsweep (htracked other heq)

/-- An owner closes its resource and removes it. -/
theorem Kept.released {s : State R} (h : Kept s) (r : R) :
    Kept (((s.forget r).shut r).setStage r .released) := by
  refine h.owner_step rfl rfl rfl rfl (fun other hne => Function.update_of_ne hne ..)
    (fun other hne hmem => Finset.mem_erase.mpr ⟨hne, hmem⟩) (fun hopen => ?_)
    (fun hstage => by cases hstage) (fun hstage => by cases hstage)
  have hclosed : (((s.forget r).shut r).setStage r .released).isOpen r = false :=
    Function.update_self ..
  rw [hclosed] at hopen
  cases hopen

/-- A resource is closed, and the sweep need not come to it any more. -/
theorem Kept.shut {s s' : State R} (h : Kept s) {r : R}
    (hopen : s'.isOpen = Function.update s.isOpen r false) (hstage : s'.stage = s.stage)
    (hclosed : s'.closed = s.closed)
    (hidle : s.sweep = .idle → s'.sweep = .idle) (hhalted : s'.halted = s.halted)
    (htracked : s'.tracked = s.tracked)
    (hawaits : ∀ other, other ≠ r → Awaits s other → Awaits s' other) : Kept s' where
  flagged := by
    rw [hclosed, hhalted]
    exact fun hflag => ⟨hidle (h.flagged hflag).1, (h.flagged hflag).2⟩
  owned := by
    intro other hother
    rw [hopen] at hother
    rw [hstage]
    by_cases heq : other = r
    · rw [heq, Function.update_self] at hother
      cases hother
    · rw [Function.update_of_ne heq] at hother
      exact h.owned other hother
  registering := by
    rw [hstage, hclosed, htracked]
    exact h.registering
  held := by
    intro other hother hisOpen
    rw [hstage] at hother
    rw [hopen] at hisOpen
    by_cases heq : other = r
    · rw [heq, Function.update_self] at hisOpen
      cases hisOpen
    · rw [Function.update_of_ne heq] at hisOpen
      exact hawaits other heq (h.held other hother hisOpen)

omit [DecidableEq R] in
/-- The sweep goes on, and touches no resource. -/
theorem Kept.sweep_step {s s' : State R} (h : Kept s) (hstage : s'.stage = s.stage)
    (hopen : s'.isOpen = s.isOpen) (hclosed : s'.closed = true)
    (hheld : ∀ r, s.stage r = .held → Awaits s r → Awaits s' r) : Kept s' where
  flagged hflag := by
    rw [hclosed] at hflag
    cases hflag
  owned := by
    rw [hstage, hopen]
    exact h.owned
  registering _ _ hflag := by
    rw [hclosed] at hflag
    cases hflag
  held := by
    rw [hstage, hopen]
    exact fun r hr hisOpen => hheld r hr (h.held r hr hisOpen)

/-- **One access** to the set or to a resource keeps the invariant. -/
theorem Kept.step {s s' : State R} (h : Kept s) {event : Event R}
    (hs : Tracked.step s event = some s') : Kept s' := by
  -- a sweep that has begun has set the flag
  have hclosed : s.sweep ≠ .idle → s.closed = true := by
    intro hsweep
    cases hflag : s.closed with
    | true => rfl
    | false => exact absurd (h.flagged hflag).1 hsweep
  unfold Tracked.step at hs
  split at hs
  case h_1 r =>
    split at hs
    case isFalse => cases hs
    case isTrue habsent =>
      obtain rfl := Option.some.inj hs
      exact h.owner_step rfl rfl rfl rfl (fun other hne => Function.update_of_ne hne ..)
        (fun _ _ hmem => hmem) (fun _ => ⟨by decide, by decide⟩) (fun hstage => by cases hstage)
        (fun hstage => by cases hstage)
  case h_2 r =>
    split at hs
    case isFalse => cases hs
    case isTrue hcreated =>
      obtain rfl := Option.some.inj hs
      exact h.owner_step rfl rfl rfl rfl (fun _ _ => rfl)
        (fun _ _ hmem => Finset.mem_insert_of_mem hmem) (fun _ => ⟨by decide, by decide⟩)
        (fun _ _ => Finset.mem_insert_self ..) (fun hstage => by cases hstage)
  case h_3 r =>
    split at hs
    case isFalse => cases hs
    case isTrue hregistering =>
      obtain rfl := Option.some.inj hs
      refine h.owner_step rfl rfl rfl rfl (fun _ _ => rfl) (fun _ _ hmem => hmem) (fun _ => ?_)
        (fun hstage => ?_) (fun hstage _ => ?_)
      · split <;> exact ⟨by decide, by decide⟩
      · split at hstage <;> cases hstage
      · -- the flag was not set, so no sweep has begun
        cases hflag : s.closed with
        | true =>
          rw [hflag] at hstage
          cases hstage
        | false =>
          obtain ⟨hidle, hhalted⟩ := h.flagged hflag
          refine ⟨hhalted, h.registering r hregistering hflag, ?_⟩
          show match s.sweep with
            | .idle => True
            | .flagged => True
            | .visiting todo => r ∈ todo
            | .visited => False
          rw [hidle]
          trivial
  case h_4 r =>
    split at hs
    case isFalse => cases hs
    case isTrue =>
      obtain rfl := Option.some.inj hs
      exact h.released r
  case h_5 r =>
    split at hs
    case isFalse => cases hs
    case isTrue =>
      obtain rfl := Option.some.inj hs
      exact h.released r
  case h_6 r =>
    split at hs
    case isFalse => cases hs
    case isTrue =>
      obtain rfl := Option.some.inj hs
      exact h.shut rfl rfl rfl id rfl rfl fun _ _ hawaits => hawaits.congr rfl rfl id
  case h_7 =>
    split at hs
    case h_2 => cases hs
    case h_1 hidle =>
      obtain rfl := Option.some.inj hs
      exact h.sweep_step rfl rfl rfl fun r _ hawaits => ⟨hawaits.1, hawaits.2.1, trivial⟩
  case h_8 =>
    split at hs
    case h_2 => cases hs
    case h_1 hflagged =>
      obtain rfl := Option.some.inj hs
      exact h.sweep_step rfl rfl (hclosed (by rw [hflagged]; simp)) fun r _ hawaits =>
        ⟨hawaits.1, hawaits.2.1, hawaits.2.1⟩
  case h_9 r =>
    split at hs
    case h_2 => cases hs
    case h_1 todo hvisiting =>
      split at hs
      case isFalse => cases hs
      case isTrue =>
        obtain rfl := Option.some.inj hs
        refine h.shut rfl rfl rfl (fun hidle => ?_) rfl rfl fun other hne hawaits => ?_
        · rw [hvisiting] at hidle
          cases hidle
        · obtain ⟨hhalted, hmem, htodo⟩ := hawaits
          rw [hvisiting] at htodo
          exact ⟨hhalted, hmem, Finset.mem_erase.mpr ⟨hne, htodo⟩⟩
  case h_10 =>
    split at hs
    case h_2 => cases hs
    case h_1 todo hvisiting =>
      split at hs
      case isFalse => cases hs
      case isTrue hdone =>
        obtain rfl := Option.some.inj hs
        refine h.sweep_step rfl rfl (hclosed (by rw [hvisiting]; simp)) fun r _ hawaits => ?_
        -- what was not visited has been removed
        obtain ⟨hhalted, hmem, htodo⟩ := hawaits
        rw [hvisiting] at htodo
        exact absurd hmem (hdone r htodo)
  case h_11 =>
    split at hs
    case h_2 => cases hs
    case h_1 hvisited =>
      obtain rfl := Option.some.inj hs
      refine h.sweep_step rfl rfl (hclosed (by rw [hvisited]; simp)) fun r _ hawaits => ?_
      obtain ⟨-, -, hnone⟩ := hawaits
      rw [hvisited] at hnone
      exact hnone.elim

/-- An access leaves the stages alone, or moves one of them, and into use only while the flag is
    not set. -/
theorem step_stage {s s' : State R} {event : Event R} (hs : step s event = some s') :
    (s.closed = true → s'.closed = true) ∧
      (s'.stage = s.stage ∨ ∃ r stage, s'.stage = Function.update s.stage r stage ∧
        (s.closed = true → stage ≠ .held)) := by
  cases event with
  | create r =>
    simp only [step, Option.ite_none_right_eq_some, Option.some.injEq] at hs
    obtain ⟨-, rfl⟩ := hs
    exact ⟨id, .inr ⟨r, .created, rfl, fun _ => by decide⟩⟩
  | register r =>
    simp only [step, Option.ite_none_right_eq_some, Option.some.injEq] at hs
    obtain ⟨-, rfl⟩ := hs
    exact ⟨id, .inr ⟨r, .registering, rfl, fun _ => by decide⟩⟩
  | check r =>
    simp only [step, Option.ite_none_right_eq_some, Option.some.injEq] at hs
    obtain ⟨-, rfl⟩ := hs
    -- what is checked after the flag is set is not held
    refine ⟨id, .inr ⟨r, _, rfl, fun hclosed => ?_⟩⟩
    rw [hclosed]
    decide
  | discard r =>
    simp only [step, Option.ite_none_right_eq_some, Option.some.injEq] at hs
    obtain ⟨-, rfl⟩ := hs
    exact ⟨id, .inr ⟨r, .released, rfl, fun _ => by decide⟩⟩
  | release r =>
    simp only [step, Option.ite_none_right_eq_some, Option.some.injEq] at hs
    obtain ⟨-, rfl⟩ := hs
    exact ⟨id, .inr ⟨r, .released, rfl, fun _ => by decide⟩⟩
  | close r =>
    simp only [step, Option.ite_none_right_eq_some, Option.some.injEq] at hs
    obtain ⟨-, rfl⟩ := hs
    -- the pass closes it, and its stage is still its owner's
    exact ⟨id, .inl rfl⟩
  | flag =>
    simp only [step] at hs
    split at hs
    case h_1 => obtain rfl := Option.some.inj hs; exact ⟨fun _ => rfl, .inl rfl⟩
    case h_2 => cases hs
  | begin =>
    simp only [step] at hs
    split at hs
    case h_1 => obtain rfl := Option.some.inj hs; exact ⟨id, .inl rfl⟩
    case h_2 => cases hs
  | visit r =>
    simp only [step] at hs
    split at hs
    case h_1 =>
      simp only [Option.ite_none_right_eq_some, Option.some.injEq] at hs
      obtain ⟨-, rfl⟩ := hs
      exact ⟨id, .inl rfl⟩
    case h_2 => cases hs
  | finish =>
    simp only [step] at hs
    split at hs
    case h_1 =>
      simp only [Option.ite_none_right_eq_some, Option.some.injEq] at hs
      obtain ⟨-, rfl⟩ := hs
      exact ⟨id, .inl rfl⟩
    case h_2 => cases hs
  | clear =>
    simp only [step] at hs
    split at hs
    case h_1 => obtain rfl := Option.some.inj hs; exact ⟨id, .inl rfl⟩
    case h_2 => cases hs

/-- The event is the sweep's, and not that of an owner. -/
def Event.sweeps : Event R → Bool
  | .flag => true
  | .begin => true
  | .visit _ => true
  | .finish => true
  | .clear => true
  | _ => false

/-- The sweep leaves the stages alone, and when it is cleared there has been one. -/
theorem sweep_frame {s s' : State R} {event : Event R} (hs : step s event = some s')
    (hsweeps : event.sweeps = true) :
    s'.stage = s.stage ∧ (s.halted = true → s'.halted = true) ∧
      (event = .clear → s'.halted = true ∧ s'.sweep = .idle) := by
  cases event with
  | visit r =>
    simp only [step] at hs
    split at hs
    case h_1 =>
      simp only [Option.ite_none_right_eq_some, Option.some.injEq] at hs
      obtain ⟨-, rfl⟩ := hs
      exact ⟨rfl, id, fun hclear => by cases hclear⟩
    case h_2 => cases hs
  | finish =>
    simp only [step] at hs
    split at hs
    case h_1 =>
      simp only [Option.ite_none_right_eq_some, Option.some.injEq] at hs
      obtain ⟨-, rfl⟩ := hs
      exact ⟨rfl, id, fun hclear => by cases hclear⟩
    case h_2 => cases hs
  | clear =>
    simp only [step] at hs
    split at hs
    case h_1 =>
      obtain rfl := Option.some.inj hs
      exact ⟨rfl, fun _ => rfl, fun _ => ⟨rfl, rfl⟩⟩
    case h_2 => cases hs
  | flag | begin =>
    simp only [step] at hs
    split at hs
    case h_1 =>
      obtain rfl := Option.some.inj hs
      exact ⟨rfl, id, fun hclear => by cases hclear⟩
    case h_2 => cases hs
  | _ => cases hsweeps

/-- The flag stays set, and then no resource comes into use. -/
theorem closed_step {s s' : State R} {event : Event R} (hs : step s event = some s')
    (hclosed : s.closed = true) :
    s'.closed = true ∧ ∀ r, s'.stage r = .held → s.stage r = .held := by
  obtain ⟨hflag, hstage⟩ := step_stage hs
  refine ⟨hflag hclosed, fun r hr => ?_⟩
  obtain hsame | ⟨moved, stage, hmoved, hnever⟩ := hstage
  · rwa [hsame] at hr
  · rw [hmoved] at hr
    by_cases heq : r = moved
    · rw [heq, Function.update_self] at hr
      exact absurd hr (hnever hclosed)
    · rwa [Function.update_of_ne heq] at hr

omit [DecidableEq R] in
/-- **Once a sweep has come to its end**, an open resource is not in use: its owner has not looked
    at the flag yet, or has found it set. -/
theorem Kept.not_held {s : State R} (h : Kept s) (hhalted : s.halted = true) {r : R}
    (hopen : s.isOpen r = true) :
    s.stage r = .created ∨ s.stage r = .registering ∨ s.stage r = .refused := by
  obtain ⟨habsent, hreleased⟩ := h.owned r hopen
  cases hstage : s.stage r with
  | absent => exact absurd hstage habsent
  | released => exact absurd hstage hreleased
  | created => exact .inl rfl
  | registering => exact .inr (.inl rfl)
  | refused => exact .inr (.inr rfl)
  | held =>
    have hawaits := (h.held r hstage hopen).1
    rw [hhalted] at hawaits
    cases hawaits

end ShareCompute.Library.Tracked
