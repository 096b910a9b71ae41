import ShareCompute.Native.ParallelLoadLaws
import Mathlib.Data.List.Find

namespace ShareCompute.Native.ParallelLoad

open ShareCompute.Library

/-!
# What the runs of `load_tensors` keep

* `Orderly` — where the loads are, by what `load_tensors` does next.
* `mutual_exclusion`, `Refused` — who may be in the callback.
* `weight` — every step is one less to come, and only `left` has none.
* `parallel_load` — parallel loading agrees with serial loading.
-/

variable {setup : Setup} {s s' : State setup} {action : Action setup}

/-! ### How the loads have ended -/

/-- The load of `i` has returned that everything was loaded. -/
def content (loads : setup.Index → Load) (i : setup.Index) : Bool :=
  decide ((loads i).point = .ended (.returned true))

/-- The load of `i` has ended with an exception. -/
def threw (loads : setup.Index → Load) (i : setup.Index) : Bool :=
  decide ((loads i).point = .ended .threw)

/-- The contexts in the order in which their results are looked at. -/
def Setup.order (setup : Setup) : List setup.Index := setup.serial ++ setup.parallel

/-- Every context of the setup is loaded serially or in parallel. -/
theorem Setup.mem_order (i : setup.Index) : i ∈ setup.order := by
  by_cases h : i ∈ setup.parallel
  · exact List.mem_append_right _ h
  · exact List.mem_append_left _ (Setup.mem_serial.mpr h)

/-- What the loads come to: the exception of the first that threw, or else whether all of them
    returned true. -/
def verdict (loads : setup.Index → Load) : Result setup.Index :=
  (setup.order.find? (threw loads)).elim (.returned (setup.order.all (content loads))) .threw

section

variable {loads loads' : setup.Index → Load} {i : setup.Index}

/-- A load is content exactly at the point where it has returned `true`. -/
theorem content_iff : content loads i = true ↔ (loads i).point = .ended (.returned true) :=
  decide_eq_true_iff

/-- A load threw exactly at the point where it has ended so. -/
theorem threw_iff : threw loads i = true ↔ (loads i).point = .ended .threw := decide_eq_true_iff

/-- A content load has ended, so it takes no more steps. -/
theorem isEnded_of_content (h : content loads i = true) : (loads i).point.isEnded = true := by
  rw [content_iff.mp h]
  rfl

/-- A content load has not thrown, since it ended otherwise. -/
theorem not_threw_of_content (h : content loads i = true) : threw loads i = false := by
  simp [threw, content_iff.mp h]

/-- A load that has not begun has not thrown. -/
theorem not_threw_of_idle (h : (loads i).point = .idle) : threw loads i = false := by
  simp [threw, h]

/-- When all loads of a list are content, the search for an exception finds none. -/
theorem find?_threw_of_content {contexts : List setup.Index}
    (h : ∀ i ∈ contexts, content loads i = true) : contexts.find? (threw loads) = none := by
  refine List.find?_eq_none.mpr fun i hi => ?_
  rw [not_threw_of_content (h i hi)]
  decide

/-- Where the loads are, by what `load_tensors` does next. -/
def Orderly (loads : setup.Index → Load) : Main setup.Index → Prop
  | .serial contexts =>
      ∃ done, setup.serial = done ++ contexts ∧ (∀ i ∈ done, content loads i = true) ∧
        (∀ i ∈ contexts.tail, (loads i).point = .idle) ∧
        ∀ i ∈ setup.parallel, (loads i).point = .idle
  | .spawning contexts =>
      (∀ i ∈ setup.serial, content loads i = true) ∧ ∃ begun, setup.parallel = begun ++ contexts ∧
        (∀ i ∈ begun, (loads i).point ≠ .idle) ∧ ∀ i ∈ contexts, (loads i).point = .idle
  | .collecting contexts ok error =>
      (∀ i ∈ setup.serial, content loads i = true) ∧
        (∀ i ∈ setup.parallel, (loads i).point ≠ .idle) ∧
        ∃ done, setup.parallel = done ++ contexts ∧ (∀ i ∈ done, (loads i).point.isEnded = true) ∧
          ok = done.all (content loads) ∧ error = done.find? (threw loads)
  | .left result =>
      (∀ i, (loads i).point = .idle ∨ (loads i).point.isEnded = true) ∧
        ((∀ i, (loads i).point ≠ .idle) ∨
          ∃ i, (loads i).point.isEnded = true ∧ content loads i = false) ∧
        result = verdict loads

/-- Loads go on: no load that has ended moves, and none becomes idle. -/
structure Onward (loads loads' : setup.Index → Load) : Prop where
  ended : ∀ i, (loads i).point.isEnded = true → loads' i = loads i
  begun : ∀ i, (loads i).point ≠ .idle → (loads' i).point ≠ .idle

/-- A content load stays content, because a load that has ended does not go on. -/
theorem Onward.content (h : Onward loads loads') (hi : content loads i = true) :
    content loads' i = true := by
  rw [content_iff, h.ended i (isEnded_of_content hi)]
  exact content_iff.mp hi

/-- The loads go on, and those that have not begun yet are not among them. -/
theorem Orderly.onward {main : Main setup.Index} (h : Onward loads loads')
    (horderly : Orderly loads main) (hmain : ∀ result, main ≠ .left result)
    (hidle : ∀ i, (loads i).point = .idle → loads' i = loads i) : Orderly loads' main := by
  cases main with
  | serial contexts =>
    obtain ⟨done, heq, hdone, htail, hparallel⟩ := horderly
    refine ⟨done, heq, fun i hi => h.content (hdone i hi), fun i hi => ?_, fun i hi => ?_⟩
    · rw [hidle i (htail i hi)]
      exact htail i hi
    · rw [hidle i (hparallel i hi)]
      exact hparallel i hi
  | spawning contexts =>
    obtain ⟨hserial, begun, heq, hbegun, hcontexts⟩ := horderly
    refine ⟨fun i hi => h.content (hserial i hi), begun, heq,
      fun i hi => h.begun i (hbegun i hi), fun i hi => ?_⟩
    rw [hidle i (hcontexts i hi)]
    exact hcontexts i hi
  | collecting contexts ok error =>
    obtain ⟨hserial, hparallel, done, heq, hdone, hok, herror⟩ := horderly
    have hsame : ∀ i ∈ done, loads' i = loads i := fun i hi => h.ended i (hdone i hi)
    refine ⟨fun i hi => h.content (hserial i hi), fun i hi => h.begun i (hparallel i hi), done,
      heq, fun i hi => ?_, ?_, ?_⟩
    · rw [hsame i hi]
      exact hdone i hi
    · rw [hok, Bool.eq_iff_iff, List.all_eq_true, List.all_eq_true]
      exact forall₂_congr fun i hi => by
        rw [ParallelLoad.content, ParallelLoad.content, hsame i hi]
    · rw [herror]
      exact List.find?_congr fun i hi => by rw [threw, threw, hsame i hi]
  | left result => exact absurd rfl (hmain result)

end

/-! ### The runs are orderly -/

/-- Before the first step the loads are where `load_tensors` expects them: none has begun. -/
theorem start_orderly (setup : Setup) : Orderly (start setup).loads (start setup).main :=
  ⟨[], rfl, by simp, fun _ _ => rfl, fun _ _ => rfl⟩

/-- A load that goes on is not looked at as one that has ended or has not begun. -/
theorem onward_move {i : setup.Index} {load' : Load} {shared' : Shared setup.Index} {event : Event}
    (hmove : Move (setup.job i) i (s.loads i) s.shared event load' shared') :
    Onward s.loads (Function.update s.loads i load') where
  ended j hended := by
    refine Function.update_of_ne ?_ _ _
    rintro rfl
    rw [hmove.begun.2] at hended
    cases hended
  begun j hj := by
    by_cases hji : j = i
    · rw [hji, Function.update_self]
      exact hmove.not_idle
    · rw [Function.update_of_ne hji]
      exact hj

/-- Beginning one load that was idle leaves all others where they were. -/
theorem onward_begin {i : setup.Index} (hidle : (s.loads i).point = .idle) :
    Onward s.loads (s.begin i).loads where
  ended j hended := by
    refine State.begin_of_ne ?_
    rintro rfl
    rw [hidle] at hended
    cases hended
  begun j hj := by
    have hji : j ≠ i := by
      rintro rfl
      exact hj hidle
    rw [State.begin_of_ne hji]
    exact hj

/-- `load_tensors` has left, so no load can move. -/
theorem Orderly.not_left {result : Result setup.Index} {i : setup.Index}
    (h : Orderly s.loads (.left result)) (hbegun : (s.loads i).point ≠ .idle)
    (hgoing : (s.loads i).point.isEnded = false) : False := by
  rcases h.1 i with hidle | hended
  · exact hbegun hidle
  · rw [hgoing] at hended
    cases hended

/-- When a load has ended in the thread of `load_tensors`, those before it were content, and those
    after it have not begun. -/
theorem Orderly.split {loads : setup.Index → Load} {i : setup.Index} {contexts : List setup.Index}
    (h : Orderly loads (.serial (i :: contexts))) (hended : (loads i).point.isEnded = true) :
    (∀ j, (loads j).point = .idle ∨ (loads j).point.isEnded = true) ∧
      ∃ done rest, setup.order = done ++ i :: rest ∧ (∀ j ∈ done, content loads j = true) ∧
        ∀ j ∈ rest, (loads j).point = .idle := by
  obtain ⟨done, heq, hdone, htail, hparallel⟩ := h
  have horder : setup.order = done ++ i :: (contexts ++ setup.parallel) := by
    rw [Setup.order, heq, List.append_assoc, List.cons_append]
  have hrest : ∀ j ∈ contexts ++ setup.parallel, (loads j).point = .idle := by
    intro j hj
    rcases List.mem_append.mp hj with hj | hj
    · exact htail j hj
    · exact hparallel j hj
  refine ⟨fun j => ?_, done, _, horder, hdone, hrest⟩
  have hj := Setup.mem_order j
  rw [horder] at hj
  rcases List.mem_append.mp hj with hj | hj
  · exact .inr (isEnded_of_content (hdone j hj))
  · rcases List.mem_cons.mp hj with rfl | hj
    · exact .inr hended
    · exact .inl (hrest j hj)

/-- A step of a thread or of `load_tensors` leaves the loads where the next statement expects
    them. -/
theorem step_orderly (h : Orderly s.loads s.main) (hstep : Step setup s action s') :
    Orderly s'.loads s'.main := by
  cases turn_of_step hstep with
  | @move i event load' shared' hmove =>
    refine h.onward (onward_move hmove) (fun result hmain => ?_) fun j hj => ?_
    · rw [hmain] at h
      exact h.not_left hmove.begun.1 hmove.begun.2
    · refine Function.update_of_ne ?_ _ _
      rintro rfl
      exact hmove.begun.1 hj
  | @call i contexts hmain hidle =>
    -- the contexts are without repetition, so the others stay idle
    rw [hmain] at h
    obtain ⟨done, heq, hdone, htail, hparallel⟩ := h
    have hnodup : (done ++ i :: contexts).Nodup := heq ▸ Setup.nodup_serial
    show Orderly (s.begin i).loads s.main
    rw [hmain]
    refine ⟨done, heq, fun j hj => (onward_begin hidle).content (hdone j hj), fun j hj => ?_,
      fun j hj => ?_⟩
    · have hji : j ≠ i := by
        rintro rfl
        exact (List.nodup_cons.mp (List.nodup_append.mp hnodup).2.1).1 hj
      rw [State.begin_of_ne hji]
      exact htail j hj
    · have hji : j ≠ i := by
        rintro rfl
        exact Setup.mem_serial.mp (by rw [heq]; simp) hj
      rw [State.begin_of_ne hji]
      exact hparallel j hj
  -- a load of the pool begins behind those that have begun
  | @spawn i contexts hmain hidle =>
    rw [hmain] at h
    obtain ⟨hserial, begun, heq, hbegun, hcontexts⟩ := h
    have hnodup : (begun ++ i :: contexts).Nodup := heq ▸ Setup.nodup_parallel
    refine ⟨fun j hj => (onward_begin hidle).content (hserial j hj), begun ++ [i], by simp [heq],
      List.forall_mem_append.mpr ⟨fun j hj => ?_, List.forall_mem_singleton.mpr ?_⟩,
      fun j hj => ?_⟩
    · exact (onward_begin hidle).begun j (hbegun j hj)
    · show ((s.begin i).loads i).point ≠ .idle
      rw [State.begin_self]
      exact ((setup.job i).loop_quiet 0).2.2.1
    · have hji : j ≠ i := by
        rintro rfl
        exact (List.nodup_cons.mp (List.nodup_append.mp hnodup).2.1).1 hj
      show ((s.begin i).loads j).point = .idle
      rw [State.begin_of_ne hji]
      exact hcontexts j (List.mem_cons_of_mem _ hj)
  | @loaded i contexts hmain hended =>
    rw [hmain] at h
    obtain ⟨done, heq, hdone, htail, hparallel⟩ := h
    have hcontent : content s.loads i = true := content_iff.mpr hended
    exact ⟨done ++ [i], by simp [heq],
      List.forall_mem_append.mpr ⟨hdone, List.forall_mem_singleton.mpr hcontent⟩,
      fun j hj => htail j (List.mem_of_mem_tail hj), hparallel⟩
  | @failed i contexts hmain hended =>
    -- `load_tensors` returns false: no load has thrown, and one was not content
    rw [hmain] at h
    obtain ⟨hall, done, rest, horder, hdone, hrest⟩ := h.split (by rw [hended]; rfl)
    have hcontent : content s.loads i = false := by simp [content, hended]
    refine ⟨hall, .inr ⟨i, by rw [hended]; rfl, hcontent⟩, ?_⟩
    have hnone : setup.order.find? (threw s.loads) = none := by
      have hi : threw s.loads i = false := by simp [threw, hended]
      rw [horder, List.find?_append, find?_threw_of_content hdone, List.find?_cons, hi]
      refine List.find?_eq_none.mpr fun j hj => ?_
      rw [not_threw_of_idle (hrest j hj)]
      decide
    have hnot : setup.order.all (content s.loads) = false :=
      List.all_eq_false.mpr ⟨i, Setup.mem_order i, by simp [hcontent]⟩
    show _ = verdict s.loads
    rw [verdict, hnone, hnot]
    rfl
  | @passedOn i contexts hmain hended =>
    -- the exception is that of the first load that threw, since those before it were content
    rw [hmain] at h
    obtain ⟨hall, done, rest, horder, hdone, hrest⟩ := h.split (by rw [hended]; rfl)
    refine ⟨hall, .inr ⟨i, by rw [hended]; rfl, by simp [content, hended]⟩, ?_⟩
    have hfirst : setup.order.find? (threw s.loads) = some i := by
      rw [horder, List.find?_append, find?_threw_of_content hdone, List.find?_cons,
        threw_iff.mpr hended]
      rfl
    show _ = verdict s.loads
    rw [verdict, hfirst]
    rfl
  | @got i contexts ok error ok' hmain hended =>
    rw [hmain] at h
    obtain ⟨hserial, hparallel, done, heq, hdone, hok, herror⟩ := h
    refine ⟨hserial, hparallel, done ++ [i], by simp [heq],
      List.forall_mem_append.mpr ⟨hdone, List.forall_mem_singleton.mpr (by rw [hended]; rfl)⟩,
      ?_, ?_⟩
    · have hcontent : content s.loads i = ok' := by
        cases ok' <;> simp [content, hended]
      rw [List.all_append, ← hok, List.all_cons, hcontent]
      simp [Bool.and_comm]
    · have hthrew : threw s.loads i = false := by simp [threw, hended]
      rw [List.find?_append, ← herror, List.find?_singleton, hthrew]
      simp
  | @caught i contexts ok error hmain hended =>
    rw [hmain] at h
    obtain ⟨hserial, hparallel, done, heq, hdone, hok, herror⟩ := h
    refine ⟨hserial, hparallel, done ++ [i], by simp [heq],
      List.forall_mem_append.mpr ⟨hdone, List.forall_mem_singleton.mpr (by rw [hended]; rfl)⟩,
      ?_, ?_⟩
    · simp [content, hended]
    · rw [List.find?_append, ← herror, List.find?_singleton, threw_iff.mpr hended]
      rfl
  | parallel hmain =>
    rw [hmain] at h
    obtain ⟨done, heq, hdone, -, hparallel⟩ := h
    refine ⟨fun j hj => hdone j ?_, [], rfl, by simp, hparallel⟩
    rw [heq, List.append_nil] at hj
    exact hj
  | collect hmain =>
    rw [hmain] at h
    obtain ⟨hserial, begun, heq, hbegun, -⟩ := h
    refine ⟨hserial, fun j hj => hbegun j ?_, [], rfl, by simp, rfl, rfl⟩
    rw [heq, List.append_nil] at hj
    exact hj
  | @leave ok error hmain =>
    rw [hmain] at h
    obtain ⟨hserial, hparallel, done, heq, hdone, hok, herror⟩ := h
    rw [List.append_nil] at heq
    subst heq
    have hended : ∀ j, (s.loads j).point.isEnded = true := by
      intro j
      rcases List.mem_append.mp (Setup.mem_order j) with hj | hj
      · exact isEnded_of_content (hserial j hj)
      · exact hdone j hj
    refine ⟨fun j => .inr (hended j), .inl fun j hj => ?_, ?_⟩
    · have hj' := hended j
      rw [hj] at hj'
      cases hj'
    · -- the serial loads were content, so the verdict is that of the parallel ones
      have hnone := find?_threw_of_content hserial
      have hall : setup.serial.all (content s.loads) = true := List.all_eq_true.mpr hserial
      show _ = verdict s.loads
      rw [verdict, Setup.order, List.find?_append, List.all_append, hnone, hall, hok, herror]
      rfl

/-- A step lets loads go on and never back: what has ended stays ended in the same way. -/
theorem onward_step (hstep : Step setup s action s') : Onward s.loads s'.loads := by
  cases turn_of_step hstep with
  | move hmove => exact onward_move hmove
  | call _ hidle => exact onward_begin hidle
  | spawn _ hidle => exact onward_begin hidle
  | _ => exact ⟨fun _ _ => rfl, fun _ h => h⟩

/-- What every run of `load_tensors` keeps: the books, and the order of the main thread. -/
structure Sound (s : State setup) : Prop where
  books : Books s
  orderly : Orderly s.loads s.main

/-- The start is sound: the loads are in order and nothing was moved, mapped or unmapped. -/
theorem start_sound (setup : Setup) : Sound (start setup) :=
  ⟨start_books setup, start_orderly setup⟩

/-- Soundness is kept by each step, from the order of the loads and the books of the memory. -/
theorem step_sound (h : Sound s) (hstep : Step setup s action s') : Sound s' :=
  ⟨step_books h.books hstep, step_orderly h.orderly hstep⟩

/-- A run from a sound state ends in a sound state. -/
theorem run_sound {actions : List (Action setup)} (h : Trace (Step setup) s actions s')
    (hs : Sound s) : Sound s' :=
  Trace.invariant (I := fun _ s => Sound s) hs (fun _ _ _ _ _ h hstep => step_sound h hstep) h

/-! ### Who is in the callback -/

/-- The load has begun and has not ended. -/
def Going (loads : setup.Index → Load) (i : setup.Index) : Prop :=
  (loads i).point ≠ .idle ∧ (loads i).point.isEnded = false

section

variable {loads : setup.Index → Load} {main : Main setup.Index} {i j : setup.Index}

/-- A load that goes on has begun. -/
theorem Going.not_idle (h : Going loads i) : (loads i).point ≠ .idle := h.1

/-- A load that goes on has not returned yet, so it is not content. -/
theorem Going.not_content (h : Going loads i) : ¬ content loads i = true := by
  intro hcontent
  rw [Going, isEnded_of_content hcontent] at h
  cases h.2

/-- A load in the thread of `load_tensors` is the only one: the others have not begun, or they were
    content. -/
theorem Orderly.alone (h : Orderly loads main) (hi : Going loads i) (hserial : i ∈ setup.serial) :
    (∃ contexts, main = .serial (i :: contexts)) ∧
      ∀ j, j ≠ i → (loads j).point = .idle ∨ content loads j = true := by
  cases main with
  | serial contexts =>
    obtain ⟨done, heq, hdone, htail, hparallel⟩ := h
    rw [heq] at hserial
    have hmem : i ∈ contexts := (List.mem_append.mp hserial).resolve_left fun hi' =>
      hi.not_content (hdone i hi')
    cases contexts with
    | nil => cases hmem
    | cons k contexts =>
      obtain rfl : i = k := (List.mem_cons.mp hmem).resolve_right fun hi' =>
        hi.not_idle (htail i hi')
      refine ⟨⟨contexts, rfl⟩, fun j hj => ?_⟩
      by_cases hpar : j ∈ setup.parallel
      · exact .inl (hparallel j hpar)
      · have hser := Setup.mem_serial.mpr hpar
        rw [heq] at hser
        rcases List.mem_append.mp hser with hj' | hj'
        · exact .inr (hdone j hj')
        · exact .inl (htail j ((List.mem_cons.mp hj').resolve_left hj))
  | spawning contexts => exact absurd (h.1 i hserial) hi.not_content
  | collecting contexts ok error => exact absurd (h.1 i hserial) hi.not_content
  | left result =>
    rcases h.1 i with hidle | hended
    · exact absurd hidle hi.1
    · rw [hi.2] at hended
      cases hended

/-- When a load runs in a thread of its own, the serial ones have been content. -/
theorem Orderly.together (h : Orderly loads main) (hi : Going loads i)
    (hparallel : i ∈ setup.parallel) : ∀ j ∈ setup.serial, content loads j = true := by
  cases main with
  | serial contexts =>
    obtain ⟨done, heq, hdone, htail, hidle⟩ := h
    exact absurd (hidle i hparallel) hi.not_idle
  | spawning contexts => exact h.1
  | collecting contexts ok error => exact h.1
  | left result =>
    rcases h.1 i with hidle | hended
    · exact absurd hidle hi.1
    · rw [hi.2] at hended
      cases hended

end

/-- The load is in the progress callback, and has not been answered yet. -/
def State.inCallback (s : State setup) (i : setup.Index) : Prop :=
  ∃ tensor?, (s.loads i).point = .inside tensor?

/-- Who is in the callback has begun and has not ended. -/
theorem State.inCallback.going {i : setup.Index} (h : s.inCallback i) : Going s.loads i := by
  obtain ⟨tensor?, hpoint⟩ := h
  rw [Going, hpoint]
  exact ⟨by simp, rfl⟩

/-- **Nobody enters the callback while somebody is in it.** -/
theorem mutual_exclusion (h : Sound s) {i j : setup.Index} (hi : s.inCallback i)
    (hj : s.inCallback j) : i = j := by
  by_contra hne
  have halone : ∀ i j, i ≠ j → s.inCallback i → s.inCallback j → i ∈ setup.parallel := by
    intro i j hne hi hj
    by_contra hpar
    rcases (h.orderly.alone hi.going (Setup.mem_serial.mpr hpar)).2 j (Ne.symm hne)
      with hidle | hcontent
    · exact hj.going.not_idle hidle
    · exact hj.going.not_content hcontent
  -- both ask through the guard, and its mutex has one holder
  have hi' := (h.books.guard i).mpr ⟨Setup.guarded_eq_true.mpr (halone i j hne hi hj), hi⟩
  have hj' := (h.books.guard j).mpr ⟨Setup.guarded_eq_true.mpr (halone j i (Ne.symm hne) hj hi), hj⟩
  rw [hi'] at hj'
  exact hne (Option.some.inj hj')

/-- A load has been refused, which is to say that it has returned `false`. -/
def State.Refused (s : State setup) : Prop := ∃ i, (s.loads i).point = .ended (.returned false)

/-- When the callback answers no, the run is refused from this step on. -/
theorem refused_of_answer {i : setup.Index} (hstep : Step setup s (.load i (.answer false)) s') :
    s'.Refused := by
  cases turn_of_step hstep with
  | move hmove =>
    refine ⟨i, ?_⟩
    simp only [Function.update_self]
    exact hmove.refused rfl

/-- Once the run is refused it stays so, since neither the flag nor a returned `false` is taken
    back. -/
theorem refused_mono (h : s.Refused) (hstep : Step setup s action s') : s'.Refused := by
  obtain ⟨i, hi⟩ := h
  refine ⟨i, ?_⟩
  rw [(onward_step hstep).ended i (by rw [hi]; rfl)]
  exact hi

/-- After a refusal the callback is not entered. -/
theorem not_enter_of_refused (h : Sound s) (hrefused : s.Refused) {i : setup.Index}
    (hstep : Step setup s (.load i .enter) s') : False := by
  obtain ⟨k, hk⟩ := hrefused
  cases turn_of_step hstep with
  | @move i event load' shared' hmove =>
    have hgoing : Going s.loads i := hmove.begun
    have hki : k ≠ i := by
      rintro rfl
      have hend := hgoing.2
      rw [hk] at hend
      cases hend
    have hnot : ¬ content s.loads k = true := by simp [content, hk]
    by_cases hpar : i ∈ setup.parallel
    · -- so the load that was refused is guarded too, and has cancelled the guard
      have hkpar : k ∈ setup.parallel := by
        by_contra hser
        exact hnot (h.orderly.together hgoing hpar k (Setup.mem_serial.mpr hser))
      have hcancelled := h.books.cancels k (Setup.guarded_eq_true.mpr hkpar) hk
      rw [hmove.entered rfl (Setup.guarded_eq_true.mpr hpar)] at hcancelled
      cases hcancelled
    · rcases (h.orderly.alone hgoing (Setup.mem_serial.mpr hpar)).2 k hki with hidle | hcontent
      · rw [hk] at hidle
        cases hidle
      · exact hnot hcontent

/-! ### How much is left to do -/

/-- How many steps a load can still take, at most. -/
def Job.weight (job : Job) : Point → ℕ
  | .idle => 4 * job.tensors.length + 6
  | .asking (some tensor) => 4 * (job.tensors.length - tensor) + 5
  | .inside (some tensor) => 4 * (job.tensors.length - tensor) + 4
  | .installing tensor => 4 * (job.tensors.length - tensor) + 3
  | .adding tensor => 4 * (job.tensors.length - tensor) + 2
  | .checking => 5
  | .exchanging => 4
  | .unmapping => 3
  | .asking none => 2
  | .inside none => 1
  | .ended _ => 0

/-- What is left of a load at the head of its loop: four steps for each tensor to come, and five to
    leave. -/
theorem Job.weight_loop (job : Job) (tensor : ℕ) :
    job.weight (job.loop tensor) = 4 * (job.tensors.length - tensor) + 5 := by
  rcases job.loop_cases tensor with ⟨-, hloop⟩ | ⟨hall, hloop⟩
  · rw [hloop, Job.weight]
  · rw [hloop, Job.weight]
    omega

/-- A step of a load leaves it less to do, whichever step it was. -/
theorem Move.weight {ι : Type} [DecidableEq ι] {job : Job} {i : ι} {load load' : Load}
    {shared shared' : Shared ι} {event : Event} (h : Move job i load shared event load' shared') :
    job.weight load'.point < job.weight load.point := by
  cases h with
  | @enter tensor? => cases tensor? <;> simp [Job.weight]
  | @lock tensor? => cases tensor? <;> simp [Job.weight]
  | @turnAway tensor? => cases tensor? <;> simp [Job.weight]
  | @refuse tensor? => cases tensor? <;> simp [Job.weight]
  | @add tensor bytes contents added shared htensor =>
    obtain ⟨hlt, -⟩ := List.getElem?_eq_some_iff.mp htensor
    simp only [Job.weight_loop]
    rw [Job.weight]
    omega
  | unmap => simp only; split <;> simp [Job.weight]
  | @throw point contents added shared hbegun hgoing =>
    cases point with
    | idle => exact absurd rfl hbegun
    | ended outcome => cases hgoing
    | asking tensor? => cases tensor? <;> simp [Job.weight]
    | inside tensor? => cases tensor? <;> simp [Job.weight]
    | _ => simp [Job.weight]
  | _ => simp [Job.weight]

/-- What is left to do for `load_tensors` itself, in each of its statements. -/
def Main.weight {ι : Type} (threads : ℕ) : Main ι → ℕ
  | .serial contexts => contexts.length + 2 * threads + 3
  | .spawning contexts => contexts.length + threads + 2
  | .collecting contexts _ _ => contexts.length + 1
  | .left _ => 0

/-- What is left for all loads and for `load_tensors` together; it bounds the length of every
    run. -/
def State.weight (s : State setup) : ℕ :=
  (∑ i, (setup.job i).weight (s.loads i).point) + s.main.weight setup.parallel.length

/-- When one load has less to do and the others are where they were, the sum is less. -/
theorem sum_weight_lt {loads : setup.Index → Load} {i : setup.Index} {load' : Load}
    (h : (setup.job i).weight load'.point < (setup.job i).weight (loads i).point) :
    ∑ j, (setup.job j).weight (Function.update loads i load' j).point
      < ∑ j, (setup.job j).weight (loads j).point := by
  refine Finset.sum_lt_sum (fun j _ => ?_) ⟨i, Finset.mem_univ i, by simpa using h⟩
  by_cases hji : j = i
  · subst hji
    simpa using h.le
  · rw [Function.update_of_ne hji]

/-- To begin a load is a step of it, so the sum of what is left is less. -/
theorem weight_begin {i : setup.Index} (hidle : (s.loads i).point = .idle) :
    ∑ j, (setup.job j).weight ((s.begin i).loads j).point
      < ∑ j, (setup.job j).weight (s.loads j).point := by
  refine sum_weight_lt ?_
  rw [hidle]
  simp only [Job.weight_loop]
  rw [Job.weight]
  omega

/-- **Every step is one less to come.** -/
theorem step_weight (hstep : Step setup s action s') : s'.weight < s.weight := by
  unfold State.weight
  cases turn_of_step hstep with
  | move hmove => exact Nat.add_lt_add_right (sum_weight_lt hmove.weight) _
  | call _ hidle => exact Nat.add_lt_add_right (weight_begin hidle) _
  | spawn hmain hidle =>
    have hlt := weight_begin hidle
    simp only [hmain, Main.weight, List.length_cons]
    omega
  | loaded hmain => simp [hmain, Main.weight]
  | failed hmain => simp [hmain, Main.weight]
  | passedOn hmain => simp [hmain, Main.weight]
  | got hmain => simp [hmain, Main.weight]
  | caught hmain => simp [hmain, Main.weight]
  | parallel hmain => simp only [hmain, Main.weight, List.length_nil]; omega
  | collect hmain => simp only [hmain, Main.weight, List.length_nil]; omega
  | leave hmain => simp [hmain, Main.weight]

/-- A run has at most as many steps as there were to do at its start. -/
theorem run_length_le {actions : List (Action setup)} (h : Trace (Step setup) s actions s') :
    actions.length + s'.weight ≤ s.weight := by
  refine Trace.invariant (I := fun actions s' => actions.length + s'.weight ≤ s.weight)
    (by simp) ?_ h
  intro actions s₁ action s₂ _ ih hstep
  have hlt := step_weight hstep
  rw [List.length_append, List.length_singleton]
  omega

/-! ### Somebody can always go on -/

/-- The callback does not say no, and no load throws. -/
def Action.Unfailing : Action setup → Prop
  | .load _ event => event ≠ .answer false ∧ event ≠ .throw
  | _ => True

/-- A load that has begun and not ended can go on, unless it waits for the mutex of the guard. -/
theorem exists_load_step {ι : Type} [DecidableEq ι] {job : Job} {i : ι} {load : Load}
    {shared : Shared ι} (hkept : load.Kept job) (hbegun : load.point ≠ .idle)
    (hgoing : load.point.isEnded = false)
    (hfree : (∃ t, load.point = .asking t) → job.guarded = true → shared.holder = none) :
    ∃ event next, load.step job i shared event = some next ∧ event ≠ .answer false ∧
      event ≠ .throw := by
  obtain ⟨point, contents, added⟩ := load
  have hwithin := hkept.within
  cases point with
  | idle => exact absurd rfl hbegun
  | asking tensor? =>
    cases hguard : job.guarded with
    | false => exact ⟨.enter, _, by simp [Load.step, hguard]; rfl, by simp, by simp⟩
    | true =>
      -- the callback is guarded, so the load waits for the lock
      have hholder := hfree ⟨tensor?, rfl⟩ hguard
      cases hcancelled : shared.cancelled with
      | false =>
        exact ⟨.enter, _, by simp [Load.step, hguard, hholder, hcancelled]; rfl, by simp, by simp⟩
      | true =>
        exact ⟨.turnAway, _, by simp [Load.step, hguard, hholder, hcancelled]; rfl, by simp,
          by simp⟩
  | inside tensor? => exact ⟨.answer true, _, rfl, by simp, by simp⟩
  | installing tensor =>
    -- the tensor it is at is one of its own
    have hlt : tensor < job.tensors.length := hwithin tensor rfl
    exact ⟨.install, _, by simp [Load.step, List.getElem?_eq_getElem hlt]; rfl, by simp, by simp⟩
  | adding tensor =>
    have hlt : tensor < job.tensors.length := hwithin tensor rfl
    exact ⟨.add, _, by simp [Load.step, List.getElem?_eq_getElem hlt]; rfl, by simp, by simp⟩
  | checking => exact ⟨.check, _, rfl, by simp, by simp⟩
  | exchanging => exact ⟨.exchange, _, rfl, by simp, by simp⟩
  | unmapping => exact ⟨.unmap, _, rfl, by simp, by simp⟩
  | ended outcome => cases hgoing

/-- In a sound state a load that goes on can take a step with which nothing fails. -/
theorem exists_going_step (h : Sound s) {i : setup.Index} (hgoing : Going s.loads i) :
    ∃ action s', Step setup s action s' ∧ action.Unfailing := by
  have hload : ∀ j, Going s.loads j →
      ((∃ t, (s.loads j).point = .asking t) → (setup.job j).guarded = true →
        s.shared.holder = none) → ∃ action s', Step setup s action s' ∧ action.Unfailing := by
    intro j hj hfree
    obtain ⟨event, next, hstep, hevent⟩ :=
      exists_load_step (i := j) (h.books.loads j) hj.1 hj.2 hfree
    exact ⟨.load j event, _, by rw [Step, step, hstep]; rfl, hevent⟩
  cases hholder : s.shared.holder with
  | none => exact hload i hgoing fun _ _ => hholder
  | some k =>
    -- the load that holds the mutex is in the callback, which answers
    obtain ⟨-, hinside⟩ := (h.books.guard k).mp hholder
    refine hload k (State.inCallback.going hinside) fun hasking => ?_
    obtain ⟨t, ht⟩ := hinside
    obtain ⟨t', ht'⟩ := hasking
    rw [ht] at ht'
    cases ht'

/-- A point is an end exactly if there is an outcome that it ends with. -/
theorem isEnded_iff {point : Point} : point.isEnded = true ↔ ∃ outcome, point = .ended outcome := by
  cases point <;> simp [Point.isEnded]

/-- **`load_tensors` is never stuck**: unless it has been left, somebody can go on without
    failing. -/
theorem exists_step (h : Sound s) (hmain : ∀ result, s.main ≠ .left result) :
    ∃ action s', Step setup s action s' ∧ action.Unfailing := by
  have horderly := h.orderly
  cases hm : s.main with
  | left result => exact absurd hm (hmain result)
  | serial contexts =>
    cases contexts with
    | nil => exact ⟨.proceed, _, by simp only [Step, step, hm]; rfl, trivial⟩
    | cons i contexts =>
      -- the context is begun, it is waited for, or its result is looked at
      by_cases hidle : (s.loads i).point = .idle
      · exact ⟨.call, _, by simp only [Step, step, hm, if_pos hidle]; rfl, trivial⟩
      · cases hended : (s.loads i).point.isEnded with
        | false => exact exists_going_step h ⟨hidle, hended⟩
        | true =>
          obtain ⟨outcome, houtcome⟩ := isEnded_iff.mp hended
          cases outcome with
          | threw => exact ⟨.result, _, by simp only [Step, step, hm, houtcome]; rfl, trivial⟩
          | returned ok =>
            cases ok <;> exact ⟨.result, _, by simp only [Step, step, hm, houtcome]; rfl, trivial⟩
  | spawning contexts =>
    cases contexts with
    | nil => exact ⟨.proceed, _, by simp only [Step, step, hm]; rfl, trivial⟩
    | cons i contexts =>
      rw [hm] at horderly
      obtain ⟨-, begun, -, -, hidle⟩ := horderly
      have hi := hidle i List.mem_cons_self
      exact ⟨.call, _, by simp only [Step, step, hm, if_pos hi]; rfl, trivial⟩
  | collecting contexts ok error =>
    cases contexts with
    | nil => exact ⟨.proceed, _, by simp only [Step, step, hm]; rfl, trivial⟩
    | cons i contexts =>
      rw [hm] at horderly
      obtain ⟨-, hbegun, done, heq, -⟩ := horderly
      have hi : (s.loads i).point ≠ .idle := hbegun i (by rw [heq]; simp)
      cases hended : (s.loads i).point.isEnded with
      | false => exact exists_going_step h ⟨hi, hended⟩
      | true =>
        obtain ⟨outcome, houtcome⟩ := isEnded_iff.mp hended
        cases outcome <;> exact ⟨.result, _, by simp only [Step, step, hm, houtcome]; rfl, trivial⟩

/-- **`load_tensors` returns**, whatever the loads have done so far. -/
theorem exists_return (h : Sound s) : ∃ actions s' result, Trace (Step setup) s actions s' ∧
    (∀ action ∈ actions, action.Unfailing) ∧ s'.main = .left result := by
  -- by induction on the steps that are left
  generalize hweight : s.weight = n
  induction n using Nat.strong_induction_on generalizing s with
  | _ n ih =>
    by_cases hmain : ∀ result, s.main ≠ .left result
    · obtain ⟨action, s₁, hstep, haction⟩ := exists_step h hmain
      obtain ⟨actions, s', result, htrace, hall, hleft⟩ :=
        ih s₁.weight (by rw [← hweight]; exact step_weight hstep) (step_sound h hstep) rfl
      refine ⟨action :: actions, s', result, htrace.cons hstep, fun a ha => ?_, hleft⟩
      rcases List.mem_cons.mp ha with rfl | ha
      · exact haction
      · exact hall a ha
    · obtain ⟨result, hleft⟩ := not_forall_not.mp hmain
      exact ⟨[], s, result, .nil, by simp, hleft⟩

/-! ### The final unmap -/

/-- The bytes that a load has counted are never more than those of all its tensors. -/
theorem Load.size_le {job : Job} (load : Load) :
    load.size job ≤ (job.tensors.map List.length).sum := by
  conv_rhs => rw [← List.take_append_drop load.added job.tensors, List.map_append, List.sum_append]
  exact Nat.le_add_right _ _

/-- A load that has counted all bytes has every tensor that has bytes in place. -/
theorem Load.installed {job : Job} {load : Load} (hkept : load.Kept job)
    (hfull : (job.tensors.map List.length).sum ≤ load.size job) {n : ℕ} {bytes : List UInt8}
    (htensor : job.tensors[n]? = some bytes) (hbytes : bytes ≠ []) :
    load.contents[n]? = some bytes := by
  have hcounted : n < load.added := by
    by_contra hge
    -- it would be among the tensors that are not counted
    have hmem : bytes ∈ job.tensors.drop load.added := by
      refine List.mem_iff_getElem?.mpr ⟨n - load.added, ?_⟩
      rw [List.getElem?_drop, Nat.add_sub_cancel' (not_lt.mp hge), htensor]
    have hle : bytes.length ≤ ((job.tensors.drop load.added).map List.length).sum :=
      List.single_le_sum (by simp) _ (List.mem_map_of_mem hmem)
    have hpos := List.length_pos_of_ne_nil hbytes
    have hsplit : (job.tensors.map List.length).sum
        = load.size job + ((job.tensors.drop load.added).map List.length).sum := by
      rw [Load.size, ← List.sum_append, ← List.map_append, List.take_append_drop]
    omega
  have hlt : n < load.contents.length := lt_of_lt_of_le hcounted hkept.added_le
  rw [← htensor, List.prefix_iff_eq_take.mp hkept.order, List.getElem?_take_of_lt hlt]

/-- **When the mappings are unmapped, every tensor that has bytes is in place.** -/
theorem installed_of_unmap (h : Sound s)
    (hunmap : s.shared.unmaps ≠ 0 ∨ ∃ i, (s.loads i).point = .unmapping) (i : setup.Index) (n : ℕ)
    (bytes : List UInt8) (htensor : (setup.tensors i)[n]? = some bytes) (hbytes : bytes ≠ []) :
    (s.loads i).contents[n]? = some bytes := by
  have hset : s.shared.unmapped = true := by
    by_contra hclear
    obtain ⟨hzero, hpast⟩ := h.books.fresh (by simpa using hclear)
    rcases hunmap with hunmaps | ⟨j, hj⟩
    · exact hunmaps hzero
    · have hj' := hpast j
      rw [hj] at hj'
      cases hj'
  have hfull := h.books.full (.inl hset)
  rw [h.books.size, sizeData_eq] at hfull
  refine Load.installed (h.books.loads i) (not_lt.mp fun hlt => ?_) htensor hbytes
  exact absurd hfull (not_le.mpr (Finset.sum_lt_sum (fun j _ => (s.loads j).size_le)
    ⟨i, Finset.mem_univ i, hlt⟩))

/-- The mapping is undone at most once in every run. -/
theorem unmaps_le_one (h : Sound s) : s.shared.unmaps ≤ 1 := by
  cases hset : s.shared.unmapped with
  | false => rw [(h.books.fresh hset).1]; omega
  | true =>
    obtain ⟨owner, -, ⟨-, hzero⟩ | ⟨-, hone⟩ | ⟨-, hzero⟩⟩ := h.books.once hset
    · omega
    · omega
    · omega

/-! ### Loads that do not fail -/

/-- In a run in which nothing fails, a load that has ended has returned that everything was
    loaded. -/
theorem unfailing_run {actions : List (Action setup)}
    (h : Trace (Step setup) (start setup) actions s)
    (hall : ∀ action ∈ actions, action.Unfailing) :
    ∀ i, (s.loads i).point.isEnded = true → content s.loads i = true := by
  suffices hrun : (∀ action ∈ actions, action.Unfailing) → s.shared.cancelled = false ∧
      ∀ i, (s.loads i).point.isEnded = true → content s.loads i = true from (hrun hall).2
  refine Trace.invariant (I := fun actions s => (∀ action ∈ actions, action.Unfailing) →
    s.shared.cancelled = false ∧ ∀ i, (s.loads i).point.isEnded = true → content s.loads i = true)
    (fun _ => ⟨rfl, by rintro i ⟨⟩⟩) ?_ h
  intro actions s action s' _ ih hstep hall
  obtain ⟨hopen, hcontent⟩ := ih fun a ha => hall a (List.mem_append_left _ ha)
  have hunfailing : action.Unfailing := hall action (by simp)
  -- a load that begins has not ended
  have hbegin : ∀ i, ∀ j, ((s.begin i).loads j).point.isEnded = true →
      content (s.begin i).loads j = true := by
    intro i j hj
    by_cases hji : j = i
    · subst hji
      simp [((setup.job j).loop_quiet 0).2.1] at hj
    · rw [State.begin_of_ne hji] at hj
      rw [content, State.begin_of_ne hji]
      exact hcontent j hj
  cases turn_of_step hstep with
  | @move i event load' shared' hmove =>
    -- a step of a load that answers `true` and throws nothing
    obtain ⟨hopen', hload⟩ := hmove.unfailing hunfailing.1 hunfailing.2 hopen
    refine ⟨hopen', fun j hj => ?_⟩
    by_cases hji : j = i
    · subst hji
      simp only [Function.update_self] at hj
      simpa [content] using hload hj
    · simp only [Function.update_of_ne hji] at hj
      simpa [content, Function.update_of_ne hji] using hcontent j hj
  | @call i => exact ⟨hopen, hbegin i⟩
  | @spawn i => exact ⟨hopen, hbegin i⟩
  | _ => exact ⟨hopen, hcontent⟩

/-- **When no load fails, `load_tensors` returns true**, and every load was content. -/
theorem succeeded {actions : List (Action setup)} {result : Result setup.Index}
    (h : Trace (Step setup) (start setup) actions s)
    (hall : ∀ action ∈ actions, action.Unfailing) (hleft : s.main = .left result) :
    result = .returned true ∧ ∀ i, content s.loads i = true := by
  have hcontent := unfailing_run h hall
  have horderly := (run_sound h (start_sound setup)).orderly
  rw [hleft] at horderly
  obtain ⟨hended, hnone, rfl⟩ := horderly
  have hcontents : ∀ i, content s.loads i = true := by
    intro i
    rcases hnone with hbegun | ⟨j, hj, hnot⟩
    · exact hcontent i ((hended i).resolve_left (hbegun i))
    · rw [hcontent j hj] at hnot
      cases hnot
  refine ⟨?_, hcontents⟩
  have hfind : setup.order.find? (threw s.loads) = none :=
    List.find?_eq_none.mpr fun i _ => by simp [not_threw_of_content (hcontents i)]
  have hevery : setup.order.all (content s.loads) = true :=
    List.all_eq_true.mpr fun i _ => hcontents i
  rw [verdict, hfind, hevery]
  rfl

/-- A load that was content has put every tensor in place. -/
theorem contents_eq (h : Sound s) {i : setup.Index} (hcontent : content s.loads i = true) :
    (s.loads i).contents = setup.tensors i := by
  obtain ⟨horder, -, hplaced, -⟩ := h.books.loads i
  rw [content_iff.mp hcontent] at hplaced
  exact horder.eq_of_length (hplaced _ rfl).1

/-- When all loads are content and there is a context, the mapping was undone exactly once. -/
theorem unmaps_eq_one (h : Sound s) (hcontent : ∀ i, content s.loads i = true)
    (hne : setup.contexts ≠ []) : s.shared.unmaps = 1 := by
  have hset : s.shared.unmapped = true := by
    by_contra hclear
    obtain ⟨i, hi⟩ := h.books.someone (by simpa using hclear) hne
    exact hi (content_iff.mp (hcontent i))
  obtain ⟨owner, -, ⟨hpoint, -⟩ | ⟨-, hone⟩ | ⟨hpoint, -⟩⟩ := h.books.once hset
  · rw [content_iff.mp (hcontent owner)] at hpoint
    cases hpoint
  · exact hone
  · rw [content_iff.mp (hcontent owner)] at hpoint
    cases hpoint

/-! ### Parallel loading agrees with serial loading -/

/-- The same contexts, loaded without `SC_PARALLEL_LOAD`. -/
def Setup.serially (setup : Setup) : Setup := { setup with parallelLoad := false }

/-- After a refusal no load enters the callback any more. -/
theorem not_enter_after_refusal {actions : List (Action setup)}
    (h : Trace (Step setup) (start setup) actions s) {before after : List (Action setup)}
    {i : setup.Index} (heq : actions = before ++ .load i (.answer false) :: after)
    (j : setup.Index) : Action.load j .enter ∉ after := by
  -- by induction on the run, with the refusal in what has happened
  suffices hrun : ∀ before after, actions = before ++ .load i (.answer false) :: after →
      s.Refused ∧ ∀ j, Action.load j .enter ∉ after from (hrun before after heq).2 j
  clear heq before after
  induction h with
  | nil => intro before after heq; simp at heq
  | @snoc actions s s' action htrace hstep ih =>
    intro before after heq
    have hsound := run_sound htrace (start_sound setup)
    cases after using List.reverseRecOn with
    | nil =>
      obtain ⟨-, hlast⟩ := List.append_inj' heq rfl
      obtain rfl := (List.cons.inj hlast).1
      exact ⟨refused_of_answer hstep, by simp⟩
    | append_singleton after last =>
      have heq' : actions ++ [action]
          = (before ++ .load i (.answer false) :: after) ++ [last] := by
        rw [heq]
        simp
      obtain ⟨hfront, hlast⟩ := List.append_inj' heq' rfl
      obtain rfl := (List.cons.inj hlast).1
      obtain ⟨hrefused, hnone⟩ := ih before after hfront
      refine ⟨refused_mono hrefused hstep, fun j hj => ?_⟩
      rcases List.mem_append.mp hj with hj | hj
      · exact hnone j hj
      · rw [← List.mem_singleton.mp hj] at hstep
        exact not_enter_of_refused hsound hrefused hstep

/-- **Parallel loading agrees with serial loading**, in every order in which the loads can move. -/
theorem parallel_load {actions : List (Action setup)}
    (h : Trace (Step setup) (start setup) actions s) :
    ((∀ action ∈ actions, action.Unfailing) → ∀ result, s.main = .left result →
      result = .returned true ∧ (∀ i, (s.loads i).contents = setup.tensors i) ∧
      (∀ (actions' : List (Action setup.serially)) (t : State setup.serially),
        Trace (Step setup.serially) (start setup.serially) actions' t →
        (∀ action ∈ actions', action.Unfailing) → (∃ result', t.main = .left result') →
        ∀ i : setup.Index, (s.loads i).contents = (t.loads i).contents) ∧
      (setup.contexts ≠ [] → s.shared.unmaps = 1)) ∧
    -- the final unmap, in every run
    s.shared.unmaps ≤ 1 ∧
    ((s.shared.unmaps ≠ 0 ∨ ∃ i, (s.loads i).point = .unmapping) →
      ∀ (i : setup.Index) (n : ℕ) (bytes : List UInt8), (setup.tensors i)[n]? = some bytes →
        bytes ≠ [] → (s.loads i).contents[n]? = some bytes) ∧
    -- the callback
    (∀ i j, s.inCallback i → s.inCallback j → i = j) ∧
    (∀ before i after, actions = before ++ .load i (.answer false) :: after →
      ∀ j, Action.load j .enter ∉ after) ∧
    -- how `load_tensors` comes back, and that it does
    (∀ result, s.main = .left result →
      (∀ i, (s.loads i).point = .idle ∨ (s.loads i).point.isEnded = true) ∧
      result = verdict s.loads) ∧
    actions.length ≤ (start setup).weight ∧
    ∃ actions' s' result, Trace (Step setup) s actions' s' ∧
      (∀ action ∈ actions', action.Unfailing) ∧ s'.main = .left result := by
  have hsound := run_sound h (start_sound setup)
  refine ⟨fun hall result hleft => ?_, unmaps_le_one hsound, installed_of_unmap hsound,
    fun i j => mutual_exclusion hsound, fun before i after heq => not_enter_after_refusal h heq,
    fun result hleft => ?_, ?_, exists_return hsound⟩
  · obtain ⟨hresult, hcontent⟩ := succeeded h hall hleft
    have hcontents : ∀ i, (s.loads i).contents = setup.tensors i := fun i =>
      contents_eq hsound (hcontent i)
    refine ⟨hresult, hcontents, fun actions' t ht hall' hleft' i => ?_,
      unmaps_eq_one hsound hcontent⟩
    obtain ⟨result', hleft'⟩ := hleft'
    have ht' := (succeeded ht hall' hleft').2 i
    exact (hcontents i).trans (contents_eq (run_sound ht (start_sound _)) ht').symm
  · have horderly := hsound.orderly
    rw [hleft] at horderly
    exact ⟨horderly.1, horderly.2.2⟩
  · have hle := run_length_le h
    omega

/-- Two remote contexts; the second has one tensor, without bytes. -/
def emptyTensor : Setup := ⟨[⟨[false], [[7]]⟩, ⟨[false], [[]]⟩], true, false⟩

/-- The first of them loads alone, as far as it gets. -/
def firstLoad : List (Action emptyTensor) :=
  [.proceed, .call, .call, .proceed] ++ [.enter, .answer true, .install, .add, .check, .exchange,
    .unmap].map (.load ⟨0, by decide⟩)

/-- Then the second load runs, and the main thread gets the results of both. -/
def secondLoad : List (Action emptyTensor) :=
  [.enter, .answer true, .install, .add, .check, .exchange].map (.load ⟨1, by decide⟩)
    ++ [.result, .result, .proceed]

/-- A run with a tensor of no bytes ends with everything loaded and the mapping undone once. -/
theorem parallel_load_empty_tensor : ∃ s : State emptyTensor,
    Trace (Step emptyTensor) (start emptyTensor) (firstLoad ++ secondLoad) s ∧
    s.main = .left (.returned true) ∧ (∀ i, (s.loads i).contents = emptyTensor.tensors i) ∧
    s.shared.unmaps = 1 := by
  have hrun : ((firstLoad ++ secondLoad).foldlM step (start emptyTensor)).any
      (fun s => match s.main with | .left _ => true | _ => false) = true := by decide
  obtain ⟨s, hs, hmain⟩ := (Option.any_eq_true ..).mp hrun
  have htrace : Trace (Step emptyTensor) (start emptyTensor) (firstLoad ++ secondLoad) s :=
    Trace.of_foldlM hs
  have hall : ∀ action ∈ firstLoad ++ secondLoad, action.Unfailing := by
    simp [firstLoad, secondLoad, Action.Unfailing]
  split at hmain
  case h_1 result hleft =>
    obtain ⟨hresult, hcontents, -, hunmaps⟩ := (parallel_load htrace).1 hall result hleft
    exact ⟨s, htrace, by rw [hleft, hresult], hcontents, hunmaps (by simp [emptyTensor])⟩
  case h_2 => cases hmain

/-- A model without contexts, which is loaded without any step of a load. -/
def noContexts : Setup := ⟨[], true, false⟩

/-- Without contexts nothing is unmapped; a tensor without bytes may be put in place after the
    final unmap. -/
theorem unmap_without_all :
    (∃ s : State noContexts, Trace (Step noContexts) (start noContexts)
      [.proceed, .proceed, .proceed] s ∧ s.main = .left (.returned true) ∧ s.shared.unmaps = 0) ∧
    ∃ s : State emptyTensor, Trace (Step emptyTensor) (start emptyTensor) firstLoad s ∧
      (∀ action ∈ firstLoad, action.Unfailing) ∧ s.shared.unmaps = 1 ∧
      emptyTensor.tensors ⟨1, by decide⟩ = [[]] ∧ (s.loads ⟨1, by decide⟩).contents = [] := by
  constructor
  · exact ⟨_, .cons rfl (.cons rfl (.cons rfl .nil)), rfl, rfl⟩
  · have hrun : (firstLoad.foldlM step (start emptyTensor)).any (fun s =>
        decide (s.shared.unmaps = 1 ∧ (s.loads ⟨1, by decide⟩).contents = [])) = true := by decide
    obtain ⟨s, hs, hempty⟩ := (Option.any_eq_true ..).mp hrun
    obtain ⟨hunmaps, hcontents⟩ := of_decide_eq_true hempty
    exact ⟨s, Trace.of_foldlM hs, by simp [firstLoad, Action.Unfailing], hunmaps, rfl, hcontents⟩

end ShareCompute.Native.ParallelLoad
