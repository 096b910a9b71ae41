import ShareCompute.Native.ParallelLoad
import Mathlib.Algebra.BigOperators.Fin
import Mathlib.Algebra.Order.BigOperators.Group.Finset
import Mathlib.Algebra.Order.BigOperators.Group.List

namespace ShareCompute.Native.ParallelLoad

open ShareCompute.Library

/-!
# What a step of the loads keeps

* `serial_or_parallel` — every context is loaded once, in the one way or the other.
* `Move`, `move_of_step` — what a load can do, and that it can do nothing else.
-/

/-! ### Which contexts are loaded how -/

namespace Setup

variable {setup : Setup} {i : setup.Index}

/-- The remote contexts are those whose buffer type is remote. -/
theorem mem_remoteCtxs : i ∈ setup.remoteCtxs ↔ setup.isRemote i = true := by
  simp [remoteCtxs]

/-- A context is loaded in parallel if it is remote and not the only remote one. -/
theorem mem_parallel : i ∈ setup.parallel ↔
    setup.isRemote i = true ∧ 1 < setup.remoteCtxs.length := by
  unfold parallel
  split
  case isTrue h => simp [mem_remoteCtxs, h]
  case isFalse h => simp [h]

/-- Every context that is not loaded in parallel is loaded serially. -/
theorem mem_serial : i ∈ setup.serial ↔ i ∉ setup.parallel := by
  rw [mem_parallel, serial, List.mem_append, List.mem_filter]
  by_cases hremote : setup.isRemote i = true
  · have hlength : 0 < setup.remoteCtxs.length :=
      List.length_pos_of_mem (mem_remoteCtxs.mpr hremote)
    split
    case isTrue hone => simp [hremote, mem_remoteCtxs, hone]
    case isFalse hone =>
      have hmany : 1 < setup.remoteCtxs.length := by omega
      simp [hremote, hmany]
  · simp [hremote]

/-- No context is listed twice among the remote ones. -/
theorem nodup_remoteCtxs : setup.remoteCtxs.Nodup := (List.nodup_finRange _).filter _

/-- No context is loaded in parallel twice. -/
theorem nodup_parallel : setup.parallel.Nodup := by
  unfold parallel
  split
  case isTrue => exact nodup_remoteCtxs
  case isFalse => exact List.nodup_nil

/-- No context is loaded serially twice, since each stands in the list once. -/
theorem nodup_serial : setup.serial.Nodup := by
  unfold serial
  refine List.Nodup.append ((List.nodup_finRange _).filter _) ?_ ?_
  · split
    case isTrue => exact nodup_remoteCtxs
    case isFalse => exact List.nodup_nil
  · intro i hlocal hremote
    have hlocal := (List.mem_filter.mp hlocal).2
    split at hremote
    case isTrue =>
      rw [mem_remoteCtxs.mp hremote] at hlocal
      cases hlocal
    case isFalse => cases hremote

/-- Exactly the loads that run in threads take the mutex around the callback. -/
theorem guarded_eq_true : (setup.job i).guarded = true ↔ i ∈ setup.parallel := decide_eq_true_iff

end Setup

/-! ### The moves of a load -/

/-- The load has returned or thrown, and takes no more steps. -/
def Point.isEnded : Point → Bool
  | .ended _ => true
  | _ => false

section

variable {ι : Type} (shared : Shared ι) (guarded ok : Bool)

/-- An answer of the callback does not change how many bytes are done. -/
@[simp] theorem Shared.answered_sizeDone :
    (shared.answered guarded ok).sizeDone = shared.sizeDone := by
  cases guarded <;> rfl

/-- An answer of the callback does not touch the flag of the mapping. -/
@[simp] theorem Shared.answered_unmapped :
    (shared.answered guarded ok).unmapped = shared.unmapped := by
  cases guarded <;> rfl

/-- An answer of the callback undoes no mapping. -/
@[simp] theorem Shared.answered_unmaps :
    (shared.answered guarded ok).unmaps = shared.unmaps := by
  cases guarded <;> rfl

end

section

variable {ι : Type} [DecidableEq ι] {job : Job} {i : ι} {load load' : Load}
  {shared shared' : Shared ι} {event : Event}

/-- What a load can do, and what that does to what the loads share. -/
inductive Move (job : Job) (i : ι) : Load → Shared ι → Event → Load → Shared ι → Prop
  | enter {tensor? contents added shared} (hguard : job.guarded = false) :
      Move job i ⟨.asking tensor?, contents, added⟩ shared .enter
        ⟨.inside tensor?, contents, added⟩ shared
  | lock {tensor? contents added shared} (hguard : job.guarded = true)
      (hfree : shared.holder = none) (hopen : shared.cancelled = false) :
      Move job i ⟨.asking tensor?, contents, added⟩ shared .enter
        ⟨.inside tensor?, contents, added⟩ { shared with holder := some i }
  | turnAway {tensor? contents added shared} (hguard : job.guarded = true)
      (hcancelled : shared.cancelled = true) :
      Move job i ⟨.asking tensor?, contents, added⟩ shared .turnAway
        ⟨.ended (.returned false), contents, added⟩ shared
  | goOn {tensor contents added shared} :
      Move job i ⟨.inside (some tensor), contents, added⟩ shared (.answer true)
        ⟨.installing tensor, contents, added⟩
        (shared.answered job.guarded true)
  | complete {contents added shared} :
      Move job i ⟨.inside none, contents, added⟩ shared (.answer true)
        ⟨.ended (.returned true), contents, added⟩
        (shared.answered job.guarded true)
  | refuse {tensor? contents added shared} :
      Move job i ⟨.inside tensor?, contents, added⟩ shared (.answer false)
        ⟨.ended (.returned false), contents, added⟩
        (shared.answered job.guarded false)
  | install {tensor bytes contents added shared} (htensor : job.tensors[tensor]? = some bytes) :
      Move job i ⟨.installing tensor, contents, added⟩ shared .install
        ⟨.adding tensor, contents ++ [bytes], added⟩ shared
  | add {tensor bytes contents added shared} (htensor : job.tensors[tensor]? = some bytes) :
      Move job i ⟨.adding tensor, contents, added⟩ shared .add
        ⟨job.loop (tensor + 1), contents, added + 1⟩
        { shared with sizeDone := shared.sizeDone + bytes.length }
  | full {contents added shared} (hfull : job.sizeData ≤ shared.sizeDone) :
      Move job i ⟨.checking, contents, added⟩ shared .check ⟨.exchanging, contents, added⟩ shared
  | notFull {contents added shared} (hrest : shared.sizeDone < job.sizeData) :
      Move job i ⟨.checking, contents, added⟩ shared .check
        ⟨.ended (.returned true), contents, added⟩ shared
  | exchange {contents added shared} (hfirst : shared.unmapped = false) :
      Move job i ⟨.exchanging, contents, added⟩ shared .exchange
        ⟨.unmapping, contents, added⟩ { shared with unmapped := true }
  | later {contents added shared} (hlater : shared.unmapped = true) :
      Move job i ⟨.exchanging, contents, added⟩ shared .exchange
        ⟨.ended (.returned true), contents, added⟩ shared
  | unmap {contents added shared} :
      Move job i ⟨.unmapping, contents, added⟩ shared .unmap
        ⟨if job.asksAtEnd then .asking none else .ended (.returned true), contents, added⟩
        { shared with unmaps := shared.unmaps + 1 }
  | throw {point contents added shared} (hbegun : point ≠ .idle) (hgoing : point.isEnded = false) :
      Move job i ⟨point, contents, added⟩ shared .throw ⟨.ended .threw, contents, added⟩
        { shared with holder := if shared.holder = some i then none else shared.holder }

/-- Whatever step a load takes is one of the listed moves, guards included. -/
theorem move_of_step (h : load.step job i shared event = some (load', shared')) :
    Move job i load shared event load' shared' := by
  obtain ⟨point, contents, added⟩ := load
  cases event with
  | enter =>
    simp only [Load.step] at h
    split at h
    case h_2 => cases h
    case h_1 tensor? =>
      split at h
      case isTrue hguard =>
        obtain ⟨rfl, rfl⟩ := Prod.mk.inj (Option.some.inj h)
        exact .enter (by simpa using hguard)
      case isFalse hguard =>
        split at h
        case isTrue hfree =>
          obtain ⟨rfl, rfl⟩ := Prod.mk.inj (Option.some.inj h)
          exact .lock (by simpa using hguard) hfree.1 hfree.2
        case isFalse => cases h
  | turnAway =>
    simp only [Load.step] at h
    split at h
    case h_2 => cases h
    case h_1 tensor? =>
      split at h
      case isTrue hturn =>
        obtain ⟨rfl, rfl⟩ := Prod.mk.inj (Option.some.inj h)
        exact .turnAway hturn.1 hturn.2.2
      case isFalse => cases h
  | answer ok =>
    simp only [Load.step] at h
    split at h
    case h_2 => cases h
    case h_1 tensor? =>
      obtain ⟨rfl, rfl⟩ := Prod.mk.inj (Option.some.inj h)
      cases ok with
      | false => exact .refuse
      | true =>
        cases tensor? with
        | none => exact .complete
        | some tensor => exact .goOn
  | install =>
    simp only [Load.step] at h
    split at h
    case h_2 => cases h
    case h_1 tensor =>
      obtain ⟨bytes, hbytes, heq⟩ := Option.map_eq_some_iff.mp h
      obtain ⟨rfl, rfl⟩ := Prod.mk.inj heq
      exact .install hbytes
  | add =>
    simp only [Load.step] at h
    split at h
    case h_2 => cases h
    case h_1 tensor =>
      obtain ⟨bytes, hbytes, heq⟩ := Option.map_eq_some_iff.mp h
      obtain ⟨rfl, rfl⟩ := Prod.mk.inj heq
      exact .add hbytes
  | check =>
    simp only [Load.step] at h
    split at h
    case h_2 => cases h
    case h_1 =>
      obtain ⟨rfl, rfl⟩ := Prod.mk.inj (Option.some.inj h)
      split
      case isTrue hfull => exact .full hfull
      case isFalse hrest => exact .notFull (not_le.mp hrest)
  | exchange =>
    simp only [Load.step] at h
    split at h
    case h_2 => cases h
    case h_1 =>
      obtain ⟨rfl, rfl⟩ := Prod.mk.inj (Option.some.inj h)
      cases hunmapped : shared.unmapped with
      | false => exact .exchange hunmapped
      | true =>
        -- the flag is set already, so exchanging it changes nothing
        have hsame : ({ shared with unmapped := true } : Shared ι) = shared := by
          rw [← hunmapped]
        rw [hsame]
        exact .later hunmapped
  | unmap =>
    simp only [Load.step] at h
    split at h
    case h_2 => cases h
    case h_1 =>
      obtain ⟨rfl, rfl⟩ := Prod.mk.inj (Option.some.inj h)
      exact .unmap
  | throw =>
    simp only [Load.step] at h
    split at h
    case h_1 => cases h
    case h_2 => cases h
    case h_3 hbegun hgoing =>
      obtain ⟨rfl, rfl⟩ := Prod.mk.inj (Option.some.inj h)
      refine .throw hbegun ?_
      cases point with
      | ended outcome => exact absurd rfl (hgoing outcome)
      | _ => rfl

/-! ### What a move does -/

/-- The final unmap has been left to this load. -/
def Point.isPast : Point → Bool
  | .unmapping => true
  | .asking none => true
  | .inside none => true
  | _ => false

/-- At the head of the loop a load asks about the next tensor, or is behind the last one. -/
theorem Job.loop_cases (job : Job) (tensor : ℕ) :
    (tensor < job.tensors.length ∧ job.loop tensor = .asking (some tensor)) ∨
      (job.tensors.length ≤ tensor ∧ job.loop tensor = .checking) := by
  unfold Job.loop
  split
  case isTrue h => exact .inl ⟨h, rfl⟩
  case isFalse h => exact .inr ⟨not_lt.mp h, rfl⟩

/-- At the head of the loop a load is inside nothing: it has not ended, and holds neither the mutex
    nor the mapping. -/
theorem Job.loop_quiet (job : Job) (tensor : ℕ) : (job.loop tensor).isPast = false ∧
    (job.loop tensor).isEnded = false ∧ job.loop tensor ≠ .idle ∧ job.loop tensor ≠ .exchanging ∧
    job.loop tensor ≠ .unmapping ∧ ∀ t, job.loop tensor ≠ .inside t := by
  rcases job.loop_cases tensor with ⟨-, hloop⟩ | ⟨-, hloop⟩ <;>
    simp [hloop, Point.isPast, Point.isEnded]

variable (h : Move job i load shared event load' shared')

include h

/-- A load that moves has begun and has not ended. -/
theorem Move.begun : load.point ≠ .idle ∧ load.point.isEnded = false := by
  cases h with
  | throw hbegun hgoing => exact ⟨hbegun, hgoing⟩
  | _ => exact ⟨by simp, rfl⟩

/-- After a move a load is not idle again. -/
theorem Move.not_idle : load'.point ≠ .idle := by
  cases h with
  | @add tensor =>
    rcases job.loop_cases (tensor + 1) with ⟨-, hloop⟩ | ⟨-, hloop⟩ <;> simp [hloop]
  | unmap => simp only; split <;> simp
  | _ => simp

/-- The flag is set by the load that is about to exchange it. -/
theorem Move.unmapped (hunmapped : shared'.unmapped = true) :
    shared.unmapped = true ∨ load.point = .exchanging := by
  cases h with
  | exchange => exact .inr rfl
  | goOn => exact .inl (by simpa using hunmapped)
  | complete => exact .inl (by simpa using hunmapped)
  | refuse => exact .inl (by simpa using hunmapped)
  | _ => exact .inl hunmapped

/-- The flag of the mapping is never taken back. -/
theorem Move.unmapped_mono (hunmapped : shared.unmapped = true) : shared'.unmapped = true := by
  cases h with
  | exchange => rfl
  | goOn => simpa using hunmapped
  | complete => simpa using hunmapped
  | refuse => simpa using hunmapped
  | _ => exact hunmapped

/-- The count of bytes done never gets smaller. -/
theorem Move.grow : shared.sizeDone ≤ shared'.sizeDone := by
  cases h with
  | goOn => simp
  | complete => simp
  | refuse => simp
  | add => exact Nat.le_add_right _ _
  | _ => exact Nat.le_refl _

/-- Only a load that is at the unmapping changes how often it was done. -/
theorem Move.unmaps (hpoint : load.point ≠ .unmapping) : shared'.unmaps = shared.unmaps := by
  cases h with
  | unmap => exact absurd rfl hpoint
  | goOn => simp
  | complete => simp
  | refuse => simp
  | _ => rfl

/-- A load exchanges the flag when it has seen the counter full. -/
theorem Move.exchanging (hpoint : load'.point = .exchanging) :
    job.sizeData ≤ shared.sizeDone := by
  cases h with
  | full hfull => exact hfull
  | @add tensor =>
    rcases job.loop_cases (tensor + 1) with ⟨-, hloop⟩ | ⟨-, hloop⟩ <;> simp [hloop] at hpoint
  | unmap => simp only at hpoint; split at hpoint <;> cases hpoint
  | _ => cases hpoint

/-- A load comes to the unmapping by the exchange of the flag, and only if it finds the flag not
    set. -/
theorem Move.unmapping (hpoint : load'.point = .unmapping) :
    load.point = .exchanging ∧ shared.unmapped = false := by
  cases h with
  | exchange hfirst => exact ⟨rfl, hfirst⟩
  | @add tensor =>
    rcases job.loop_cases (tensor + 1) with ⟨-, hloop⟩ | ⟨-, hloop⟩ <;> simp [hloop] at hpoint
  | unmap => simp only at hpoint; split at hpoint <;> cases hpoint
  | _ => cases hpoint

/-- The load that sets the flag goes on to unmap. -/
theorem Move.sets (hclear : shared.unmapped = false) (hset : shared'.unmapped = true) :
    load'.point = .unmapping ∧ shared'.unmaps = shared.unmaps := by
  cases h with
  | exchange => exact ⟨rfl, rfl⟩
  | goOn => simp [hclear] at hset
  | complete => simp [hclear] at hset
  | refuse => simp [hclear] at hset
  | _ => exact absurd hset (by simp [hclear])

/-- At the unmapping a load does it and goes on, or it throws and nothing was undone. -/
theorem Move.leaves (hpoint : load.point = .unmapping) :
    load'.point ≠ .unmapping ∧ shared'.unmaps = shared.unmaps + 1 ∨
      load'.point = .ended .threw ∧ shared'.unmaps = shared.unmaps := by
  cases h with
  | unmap => refine .inl ⟨?_, rfl⟩; simp only; split <;> simp
  | throw => exact .inr ⟨rfl, rfl⟩
  | _ => cases hpoint

/-- A load gets past the exchange by setting the flag. -/
theorem Move.past (hpast : load'.point.isPast = true) :
    load.point.isPast = true ∨ shared'.unmapped = true := by
  cases h with
  | exchange => exact .inr rfl
  | @add tensor =>
    rcases job.loop_cases (tensor + 1) with ⟨-, hloop⟩ | ⟨-, hloop⟩ <;>
      simp [hloop, Point.isPast] at hpast
  | @enter tensor? => cases tensor? <;> exact .inl hpast
  | @lock tensor? => cases tensor? <;> exact .inl hpast
  | unmap => exact .inl rfl
  | _ => cases hpast

/-- A load is content when it saw that the counter was not full, when another one had set the flag,
    or when it has unmapped. -/
theorem Move.ended (hpoint : load'.point = .ended (.returned true)) :
    load.point.isPast = true ∨ shared.unmapped = true ∨
      load.point = .checking ∧ shared.sizeDone < job.sizeData := by
  cases h with
  | complete => exact .inl rfl
  | notFull hrest => exact .inr (.inr ⟨rfl, hrest⟩)
  | later hlater => exact .inr (.inl hlater)
  | unmap => exact .inl rfl
  | @add tensor =>
    rcases job.loop_cases (tensor + 1) with ⟨-, hloop⟩ | ⟨-, hloop⟩ <;> simp [hloop] at hpoint
  | _ => cases hpoint

/-- A load that gives up has cancelled the guard, or found it cancelled. -/
theorem Move.cancels (hguard : job.guarded = true)
    (hpoint : load'.point = .ended (.returned false)) : shared'.cancelled = true := by
  cases h with
  | turnAway _ hcancelled => exact hcancelled
  | refuse => simp [Shared.answered, hguard]
  | @add tensor =>
    rcases job.loop_cases (tensor + 1) with ⟨-, hloop⟩ | ⟨-, hloop⟩ <;> simp [hloop] at hpoint
  | unmap => simp only at hpoint; split at hpoint <;> cases hpoint
  | _ => cases hpoint

/-- The flag by which the loads cancel each other is never taken back. -/
theorem Move.cancelled_mono (hcancelled : shared.cancelled = true) :
    shared'.cancelled = true := by
  have hanswered : ∀ ok, (shared.answered job.guarded ok).cancelled = true := by
    intro ok
    cases job.guarded <;> simp [Shared.answered, hcancelled]
  cases h with
  | goOn => exact hanswered true
  | complete => exact hanswered true
  | refuse => exact hanswered false
  | _ => exact hcancelled

/-- A load whose callback answers no returns `false` at once. -/
theorem Move.refused (hevent : event = .answer false) : load'.point = .ended (.returned false) := by
  cases h with
  | refuse => rfl
  | _ => cases hevent

/-- A load that takes the mutex enters the callback only while nobody has cancelled. -/
theorem Move.entered (hevent : event = .enter) (hguard : job.guarded = true) :
    shared.cancelled = false := by
  cases h with
  | enter hunguarded =>
    rw [hguard] at hunguarded
    cases hunguarded
  | lock _ _ hopen => exact hopen
  | _ => cases hevent

/-- A load that is not refused and does not throw is content in the end. -/
theorem Move.unfailing (hrefuse : event ≠ .answer false) (hthrow : event ≠ .throw)
    (hopen : shared.cancelled = false) : shared'.cancelled = false ∧
      (load'.point.isEnded = true → load'.point = .ended (.returned true)) := by
  have hanswered : (shared.answered job.guarded true).cancelled = false := by
    cases job.guarded <;> simp [Shared.answered, hopen]
  cases h with
  | turnAway _ hcancelled => rw [hopen] at hcancelled; cases hcancelled
  | refuse => exact absurd rfl hrefuse
  | throw => exact absurd rfl hthrow
  | goOn => exact ⟨hanswered, by rintro ⟨⟩⟩
  | complete => exact ⟨hanswered, fun _ => rfl⟩
  | @add tensor =>
    refine ⟨hopen, fun hended => ?_⟩
    simp [(job.loop_quiet (tensor + 1)).2.1] at hended
  | unmap =>
    refine ⟨hopen, fun hended => ?_⟩
    simp only at hended ⊢
    split at hended
    case isTrue => cases hended
    case isFalse hend => rw [if_neg hend]
  | notFull => exact ⟨hopen, fun _ => rfl⟩
  | later => exact ⟨hopen, fun _ => rfl⟩
  | _ => exact ⟨hopen, by rintro ⟨⟩⟩

/-! Who holds the mutex of the guard -/

variable (hguard : shared.holder = some i ↔ job.guarded = true ∧ ∃ t, load.point = .inside t)

include hguard

/-- After a move a load holds the mutex exactly if it takes one and is inside the callback. -/
theorem Move.guard_self :
    shared'.holder = some i ↔ job.guarded = true ∧ ∃ t, load'.point = .inside t := by
  cases h with
  | enter hunguarded => simpa [hunguarded] using hguard
  | lock hguarded => simp [hguarded]
  | goOn => cases hjob : job.guarded <;> simp_all [Shared.answered]
  | complete => cases hjob : job.guarded <;> simp_all [Shared.answered]
  | refuse => cases hjob : job.guarded <;> simp_all [Shared.answered]
  | throw => simp
  | @add tensor =>
    rcases job.loop_cases (tensor + 1) with ⟨-, hloop⟩ | ⟨-, hloop⟩ <;> simpa [hloop] using hguard
  | unmap => simp only; split <;> simpa using hguard
  | _ => simpa using hguard

/-- A load takes and releases the mutex for itself. -/
theorem Move.guard_other {j : ι} (hne : j ≠ i) :
    shared'.holder = some j ↔ shared.holder = some j := by
  have hanswered : (∃ t, load.point = .inside t) → ∀ ok,
      ((shared.answered job.guarded ok).holder = some j ↔ shared.holder = some j) := by
    intro hinside ok
    cases hjob : job.guarded with
    | false => rfl
    | true =>
      have hholder := hguard.mpr ⟨hjob, hinside⟩
      simp [Shared.answered, hholder, Ne.symm hne]
  cases h with
  | lock _ hfree => simp [hfree, Ne.symm hne]
  | goOn => exact hanswered ⟨_, rfl⟩ true
  | complete => exact hanswered ⟨_, rfl⟩ true
  | refuse => exact hanswered ⟨_, rfl⟩ false
  | throw =>
    simp only
    split
    case isTrue hholder => simp [hholder, Ne.symm hne]
    case isFalse => rfl
  | _ => rfl

omit hguard in
/-- Once the guard is cancelled, nobody takes its mutex any more. -/
theorem Move.quiet (hquiet : shared.cancelled = true → shared.holder = none)
    (hcancelled : shared'.cancelled = true) : shared'.holder = none := by
  have hanswered : ∀ ok, (shared.answered job.guarded ok).cancelled = true →
      (shared.answered job.guarded ok).holder = none := by
    intro ok hok
    cases hjob : job.guarded with
    | false =>
      rw [hjob] at hok
      exact hquiet hok
    | true => rfl
  cases h with
  | lock _ _ hopen => simp [hopen] at hcancelled
  | goOn => exact hanswered true hcancelled
  | complete => exact hanswered true hcancelled
  | refuse => exact hanswered false hcancelled
  | throw => simp [hquiet hcancelled]
  | _ => exact hquiet hcancelled

end

/-! ### What a load keeps -/

/-- How many tensors are in place and how many are counted, where the point tells. -/
def Job.placed (job : Job) : Point → Option (ℕ × ℕ)
  | .idle => some (0, 0)
  | .asking (some tensor) => some (tensor, tensor)
  | .inside (some tensor) => some (tensor, tensor)
  | .installing tensor => some (tensor, tensor)
  | .adding tensor => some (tensor + 1, tensor)
  | .ended (.returned false) => none
  | .ended .threw => none
  | _ => some (job.tensors.length, job.tensors.length)

/-- Inside the callback a load has placed as much as when it asked to enter. -/
theorem Job.placed_inside (job : Job) (tensor? : Option ℕ) :
    job.placed (.inside tensor?) = job.placed (.asking tensor?) := by
  cases tensor? <;> rfl

/-- The tensor that a point is about. -/
def Point.tensor? : Point → Option ℕ
  | .asking tensor? => tensor?
  | .inside tensor? => tensor?
  | .installing tensor => some tensor
  | .adding tensor => some tensor
  | _ => none

/-- What holds of a load at every point: its contents are the first tensors of the job, and its
    counts fit its point. -/
structure Load.Kept (job : Job) (load : Load) : Prop where
  order : load.contents <+: job.tensors
  added_le : load.added ≤ load.contents.length
  placed : ∀ c ∈ job.placed load.point, load.contents.length = c.1 ∧ load.added = c.2
  within : ∀ n ∈ load.point.tensor?, n < job.tensors.length

/-- What a load has put into `size_done`. -/
def Load.size (job : Job) (load : Load) : ℕ :=
  ((job.tensors.take load.added).map List.length).sum

/-- A move keeps that, and adds to the shared count exactly what the load has placed. -/
theorem Move.kept {ι : Type} [DecidableEq ι] {job : Job} {i : ι} {load load' : Load}
    {shared shared' : Shared ι} {event : Event} (h : Move job i load shared event load' shared')
    (hkept : load.Kept job) : load'.Kept job ∧
      shared'.sizeDone + load.size job = shared.sizeDone + load'.size job := by
  cases h with
  | enter =>
    refine ⟨⟨hkept.order, hkept.added_le, ?_, hkept.within⟩, rfl⟩
    rw [Job.placed_inside]
    exact hkept.placed
  | lock =>
    refine ⟨⟨hkept.order, hkept.added_le, ?_, hkept.within⟩, rfl⟩
    rw [Job.placed_inside]
    exact hkept.placed
  | turnAway =>
    exact ⟨⟨hkept.order, hkept.added_le, by simp [Job.placed], by simp [Point.tensor?]⟩, rfl⟩
  | goOn => exact ⟨⟨hkept.order, hkept.added_le, hkept.placed, hkept.within⟩, by simp; rfl⟩
  | complete =>
    exact ⟨⟨hkept.order, hkept.added_le, hkept.placed, by simp [Point.tensor?]⟩, by simp; rfl⟩
  | refuse =>
    exact ⟨⟨hkept.order, hkept.added_le, by simp [Job.placed], by simp [Point.tensor?]⟩,
      by simp; rfl⟩
  | @install tensor bytes contents added shared htensor =>
    -- the tensor that is installed is the next one of the order
    obtain ⟨hlength, hadded⟩ := hkept.placed (tensor, tensor) rfl
    obtain ⟨rest, hrest⟩ := hkept.order
    simp only at hlength hadded hrest
    refine ⟨⟨?_, ?_, ?_, hkept.within⟩, rfl⟩
    · rw [← hrest, ← hlength, List.getElem?_append_right (Nat.le_refl _), Nat.sub_self] at htensor
      cases rest with
      | nil => simp at htensor
      | cons b rest =>
        obtain rfl : b = bytes := by simpa using htensor
        exact ⟨rest, by rw [← hrest]; simp⟩
    · show added ≤ (contents ++ [bytes]).length
      rw [List.length_append]
      omega
    · rintro _ ⟨⟩
      exact ⟨by rw [List.length_append, hlength]; rfl, hadded⟩
  | @add tensor bytes contents added shared htensor =>
    -- the tensor that has been installed is counted
    obtain ⟨hlength, hadded⟩ := hkept.placed (tensor + 1, tensor) rfl
    have hle := hkept.order.length_le
    simp only at hlength hadded hle
    refine ⟨⟨hkept.order, by show added + 1 ≤ contents.length; omega, ?_, ?_⟩, ?_⟩
    · rcases job.loop_cases (tensor + 1) with ⟨-, hloop⟩ | ⟨hall, hloop⟩
      · rw [hloop]
        rintro _ ⟨⟩
        exact ⟨hlength, by show added + 1 = tensor + 1; omega⟩
      · rw [hloop]
        rintro _ ⟨⟩
        exact ⟨by show contents.length = _; omega, by show added + 1 = _; omega⟩
    · intro n hn
      rcases job.loop_cases (tensor + 1) with ⟨hnext, hloop⟩ | ⟨-, hloop⟩
      · obtain rfl : tensor + 1 = n := by simpa [hloop, Point.tensor?] using hn
        exact hnext
      · simp [hloop, Point.tensor?] at hn
    · show shared.sizeDone + bytes.length + ((job.tensors.take added).map List.length).sum
        = shared.sizeDone + ((job.tensors.take (added + 1)).map List.length).sum
      rw [List.take_add_one, hadded, htensor]
      simp
      omega
  | full => exact ⟨⟨hkept.order, hkept.added_le, hkept.placed, by simp [Point.tensor?]⟩, rfl⟩
  | notFull => exact ⟨⟨hkept.order, hkept.added_le, hkept.placed, by simp [Point.tensor?]⟩, rfl⟩
  | exchange => exact ⟨⟨hkept.order, hkept.added_le, hkept.placed, by simp [Point.tensor?]⟩, rfl⟩
  | later => exact ⟨⟨hkept.order, hkept.added_le, hkept.placed, by simp [Point.tensor?]⟩, rfl⟩
  | unmap =>
    refine ⟨⟨hkept.order, hkept.added_le, ?_, ?_⟩, rfl⟩
    · simp only
      split <;> exact hkept.placed
    · simp only
      split <;> simp [Point.tensor?]
  | throw =>
    exact ⟨⟨hkept.order, hkept.added_le, by simp [Job.placed], by simp [Point.tensor?]⟩, rfl⟩

/-! ### What the loads keep together -/

/-- What every step keeps of the loads and of what they share. -/
structure Books (s : State setup) : Prop where
  loads : ∀ i, (s.loads i).Kept (setup.job i)
  size : s.shared.sizeDone = ∑ i, (s.loads i).size (setup.job i)
  full : s.shared.unmapped = true ∨ (∃ i, (s.loads i).point = .exchanging) →
    setup.sizeData ≤ s.shared.sizeDone
  fresh : s.shared.unmapped = false →
    s.shared.unmaps = 0 ∧ ∀ i, (s.loads i).point.isPast = false
  /-- the load that has set the flag unmaps, unless it throws before -/
  once : s.shared.unmapped = true → ∃ owner,
    (∀ i, (s.loads i).point = .unmapping → i = owner) ∧
    ((s.loads owner).point = .unmapping ∧ s.shared.unmaps = 0 ∨
      (s.loads owner).point ≠ .unmapping ∧ s.shared.unmaps = 1 ∨
      (s.loads owner).point = .ended .threw ∧ s.shared.unmaps = 0)
  /-- as long as the flag is not set, somebody is left to set it -/
  someone : s.shared.unmapped = false → setup.contexts ≠ [] →
    ∃ i, (s.loads i).point ≠ .ended (.returned true)
  guard : ∀ i, s.shared.holder = some i ↔
    (setup.job i).guarded = true ∧ ∃ t, (s.loads i).point = .inside t
  quiet : s.shared.cancelled = true → s.shared.holder = none
  cancels : ∀ i, (setup.job i).guarded = true →
    (s.loads i).point = .ended (.returned false) → s.shared.cancelled = true

/-- Before the first step all books are empty. -/
theorem start_books (setup : Setup) : Books (start setup) where
  loads i := ⟨List.nil_prefix, Nat.le_refl _, by rintro _ ⟨⟩; exact ⟨rfl, rfl⟩, by rintro _ ⟨⟩⟩
  size := by simp [start, Load.size]
  full h := by rcases h with h | ⟨i, h⟩ <;> cases h
  fresh _ := ⟨rfl, fun _ => rfl⟩
  once h := by cases h
  someone _ hne := ⟨⟨0, List.length_pos_of_ne_nil hne⟩, by simp [start]⟩
  guard i := by simp [start]
  quiet _ := rfl
  cancels _ _ h := by cases h

variable {s : State setup} {i : setup.Index} {load' : Load} {shared' : Shared setup.Index}
  {event : Event}

/-- What the loads have together, after one of them has changed. -/
theorem sum_update (loads : setup.Index → Load) (i : setup.Index) (load' : Load) :
    (∑ j, (Function.update loads i load' j).size (setup.job j)) + (loads i).size (setup.job i)
      = (∑ j, (loads j).size (setup.job j)) + load'.size (setup.job i) := by
  have hrest : ∑ j ∈ Finset.univ.erase i, (Function.update loads i load' j).size (setup.job j)
      = ∑ j ∈ Finset.univ.erase i, (loads j).size (setup.job j) :=
    Finset.sum_congr rfl fun j hj => by
      rw [Function.update_of_ne (Finset.ne_of_mem_erase hj)]
  rw [← Finset.add_sum_erase _ _ (Finset.mem_univ i), hrest,
    ← Finset.add_sum_erase _ (fun j => (loads j).size (setup.job j)) (Finset.mem_univ i),
    Function.update_self]
  omega

/-- `size_data` is the total over all contexts. -/
theorem sizeData_eq (setup : Setup) :
    setup.sizeData = ∑ i, ((setup.tensors i).map List.length).sum := by
  rw [Setup.sizeData]
  exact (Fin.sum_univ_fun_getElem setup.contexts
    (fun c => (c.tensors.map List.length).sum)).symm

/-- While the counter is not full, some load has not counted all its tensors. -/
theorem Books.exists_added_lt (h : Books s) (hrest : s.shared.sizeDone < setup.sizeData) :
    ∃ j, (s.loads j).added < (setup.tensors j).length := by
  rw [h.size, sizeData_eq] at hrest
  obtain ⟨j, -, hlt⟩ := Finset.exists_lt_of_sum_lt hrest
  refine ⟨j, not_le.mp fun hle => ?_⟩
  have hall : (setup.job j).tensors.take (s.loads j).added = setup.tensors j :=
    List.take_of_length_le hle
  rw [Load.size, hall] at hlt
  exact absurd hlt (lt_irrefl _)

/-- The exchange of the flag has one winner: after a move the unmapping is to come, was done once,
    or threw, at one load only. -/
theorem move_once (h : Books s)
    (hmove : Move (setup.job i) i (s.loads i) s.shared event load' shared')
    (hset : shared'.unmapped = true) : ∃ owner,
      (∀ j, (Function.update s.loads i load' j).point = .unmapping → j = owner) ∧
      ((Function.update s.loads i load' owner).point = .unmapping ∧ shared'.unmaps = 0 ∨
        (Function.update s.loads i load' owner).point ≠ .unmapping ∧ shared'.unmaps = 1 ∨
        (Function.update s.loads i load' owner).point = .ended .threw ∧ shared'.unmaps = 0) := by
  cases hold : s.shared.unmapped with
  | false =>
    -- this is the load that sets the flag
    obtain ⟨hzero, hpast⟩ := h.fresh hold
    obtain ⟨hpoint, hsame⟩ := hmove.sets hold hset
    refine ⟨i, fun j hj => ?_, .inl ⟨by rw [Function.update_self, hpoint], by rw [hsame, hzero]⟩⟩
    by_contra hne
    rw [Function.update_of_ne hne] at hj
    have hclear := hpast j
    rw [hj] at hclear
    cases hclear
  | true =>
    obtain ⟨owner, honly, hstate⟩ := h.once hold
    have hnot : load'.point ≠ .unmapping := by
      intro hpoint
      rw [(hmove.unmapping hpoint).2] at hold
      cases hold
    refine ⟨owner, fun j hj => ?_, ?_⟩
    · by_cases hji : j = i
      · rw [hji, Function.update_self] at hj
        exact absurd hj hnot
      · rw [Function.update_of_ne hji] at hj
        exact honly j hj
    · by_cases howner : owner = i
      · subst howner
        rw [Function.update_self]
        rcases hstate with ⟨hpoint, hzero⟩ | ⟨hpoint, hone⟩ | ⟨hpoint, -⟩
        · rcases hmove.leaves hpoint with ⟨-, hunmaps⟩ | ⟨hthrew, hunmaps⟩
          · exact .inr (.inl ⟨hnot, by rw [hunmaps, hzero]⟩)
          · exact .inr (.inr ⟨hthrew, by rw [hunmaps, hzero]⟩)
        · exact .inr (.inl ⟨hnot, by rw [hmove.unmaps hpoint, hone]⟩)
        · have hgoing := hmove.begun.2
          rw [hpoint] at hgoing
          cases hgoing
      · have hother : (s.loads i).point ≠ .unmapping := fun hpoint =>
          howner (honly i hpoint).symm
        rw [Function.update_of_ne howner, hmove.unmaps hother]
        exact hstate

/-- **A move of a load** keeps the books, by the cases of what it can do. -/
theorem move_books (h : Books s)
    (hmove : Move (setup.job i) i (s.loads i) s.shared event load' shared') :
    Books { s with loads := Function.update s.loads i load', shared := shared' } := by
  obtain ⟨hkept, hsize⟩ := hmove.kept (h.loads i)
  have hfresh : shared'.unmapped = false → s.shared.unmapped = false := by
    intro hclear
    by_contra hset
    rw [hmove.unmapped_mono (by simpa using hset)] at hclear
    cases hclear
  -- a property of every load but `i` is what it was
  have hcases : ∀ P : setup.Index → Load → Prop, P i load' → (∀ j, j ≠ i → P j (s.loads j)) →
      ∀ j, P j (Function.update s.loads i load' j) := by
    intro P hself hothers j
    by_cases hj : j = i
    · rw [hj, Function.update_self]
      exact hself
    · rw [Function.update_of_ne hj]
      exact hothers j hj
  exact {
    loads := hcases (fun j load => load.Kept (setup.job j)) hkept fun j _ => h.loads j
    size := by
      have hsum := sum_update s.loads i load'
      have hold := h.size
      show shared'.sizeDone = ∑ j, (Function.update s.loads i load' j).size (setup.job j)
      omega
    full := by
      rintro (hunmapped | ⟨j, hj⟩)
      · refine le_trans (h.full ?_) hmove.grow
        exact (hmove.unmapped hunmapped).imp id fun hpoint => ⟨i, hpoint⟩
      · by_cases hji : j = i
        · subst hji
          exact le_trans (hmove.exchanging (by simpa using hj)) hmove.grow
        · refine le_trans (h.full (.inr ⟨j, ?_⟩)) hmove.grow
          simpa [Function.update_of_ne hji] using hj
    fresh := by
      intro hclear
      obtain ⟨hzero, hpast⟩ := h.fresh (hfresh hclear)
      refine ⟨(hmove.unmaps fun hpoint => ?_).trans hzero,
        hcases (fun _ load => load.point.isPast = false) ?_ fun j _ => hpast j⟩
      · have hi := hpast i
        rw [hpoint] at hi
        cases hi
      · by_contra hself
        rcases hmove.past (by simpa using hself) with hold | hset
        · rw [hpast i] at hold
          cases hold
        · rw [hset] at hclear
          cases hclear
    once := move_once h hmove
    someone := by
      intro hclear _
      by_cases hpoint : load'.point = .ended (.returned true)
      · have hold := hfresh hclear
        rcases hmove.ended hpoint with hpast | hset | ⟨hchecking, hrest⟩
        · rw [(h.fresh hold).2 i] at hpast
          cases hpast
        · rw [hset] at hold
          cases hold
        · -- the counter is not full, so another load has not counted all its tensors
          obtain ⟨k, hk⟩ := h.exists_added_lt hrest
          have hcounted : ∀ j, (setup.job j).placed (s.loads j).point
              = some ((setup.tensors j).length, (setup.tensors j).length) → j ≠ k := by
            rintro j hj rfl
            exact absurd ((h.loads j).placed _ hj).2 (Nat.ne_of_lt hk)
          have hki : k ≠ i := (hcounted i (by rw [hchecking]; rfl)).symm
          refine ⟨k, fun hended => ?_⟩
          have hended : (s.loads k).point = .ended (.returned true) := by
            simpa [Function.update_of_ne hki] using hended
          exact hcounted k (by rw [hended]; rfl) rfl
      · exact ⟨i, by simpa using hpoint⟩
    guard := by
      intro j
      by_cases hj : j = i
      · subst hj
        simpa using hmove.guard_self (h.guard j)
      · simpa [Function.update_of_ne hj] using
          (hmove.guard_other (h.guard i) hj).trans (h.guard j)
    quiet := hmove.quiet h.quiet
    cancels := by
      intro j hguard hended
      by_cases hji : j = i
      · subst hji
        exact hmove.cancels hguard (by simpa using hended)
      · refine hmove.cancelled_mono (h.cancels j hguard ?_)
        simpa [Function.update_of_ne hji] using hended }

/-! ### The steps of `load_tensors` -/

/-- What a step does, and when: a move of a load, or a turn of the main thread. -/
inductive Turn (s : State setup) : Action setup → State setup → Prop
  | move {i : setup.Index} {event : Event} {load' : Load} {shared' : Shared setup.Index}
      (hmove : Move (setup.job i) i (s.loads i) s.shared event load' shared') :
      Turn s (.load i event)
        { s with loads := Function.update s.loads i load', shared := shared' }
  | call {i : setup.Index} {contexts} (hmain : s.main = .serial (i :: contexts))
      (hidle : (s.loads i).point = .idle) :
      Turn s .call (s.begin i)
  | spawn {i : setup.Index} {contexts} (hmain : s.main = .spawning (i :: contexts))
      (hidle : (s.loads i).point = .idle) :
      Turn s .call { s.begin i with main := .spawning contexts }
  | loaded {i : setup.Index} {contexts} (hmain : s.main = .serial (i :: contexts))
      (hended : (s.loads i).point = .ended (.returned true)) :
      Turn s .result { s with main := .serial contexts }
  | failed {i : setup.Index} {contexts} (hmain : s.main = .serial (i :: contexts))
      (hended : (s.loads i).point = .ended (.returned false)) :
      Turn s .result { s with main := .left (.returned false) }
  | passedOn {i : setup.Index} {contexts} (hmain : s.main = .serial (i :: contexts))
      (hended : (s.loads i).point = .ended .threw) :
      Turn s .result { s with main := .left (.threw i) }
  | got {i : setup.Index} {contexts ok error ok'}
      (hmain : s.main = .collecting (i :: contexts) ok error)
      (hended : (s.loads i).point = .ended (.returned ok')) :
      Turn s .result { s with main := .collecting contexts (ok' && ok) error }
  | caught {i : setup.Index} {contexts ok error}
      (hmain : s.main = .collecting (i :: contexts) ok error)
      (hended : (s.loads i).point = .ended .threw) :
      Turn s .result { s with main := .collecting contexts false (error.or (some i)) }
  | parallel (hmain : s.main = .serial []) :
      Turn s .proceed { s with main := .spawning setup.parallel }
  | collect (hmain : s.main = .spawning []) :
      Turn s .proceed { s with main := .collecting setup.parallel true none }
  | leave {ok error} (hmain : s.main = .collecting [] ok error) :
      Turn s .proceed { s with main := .left (error.elim (.returned ok) .threw) }

variable {s' : State setup} {action : Action setup}

/-- A step of the run is a move of one load, or a step of `load_tensors` that moves none. -/
theorem turn_of_step (h : Step setup s action s') : Turn s action s' := by
  rw [Step] at h
  cases action with
  | load i event =>
    obtain ⟨⟨load', shared'⟩, hload, rfl⟩ := Option.map_eq_some_iff.mp h
    exact .move (move_of_step hload)
  | call =>
    simp only [step] at h
    split at h
    case h_1 i contexts hmain =>
      obtain ⟨hidle, ⟨⟩⟩ := Option.ite_none_right_eq_some.mp h
      exact .call hmain hidle
    case h_2 i contexts hmain =>
      obtain ⟨hidle, ⟨⟩⟩ := Option.ite_none_right_eq_some.mp h
      exact .spawn hmain hidle
    case h_3 => cases h
  | result =>
    simp only [step] at h
    split at h
    case h_1 i contexts hmain =>
      split at h
      case h_1 hended => cases h; exact .loaded hmain hended
      case h_2 hended => cases h; exact .failed hmain hended
      case h_3 hended => cases h; exact .passedOn hmain hended
      case h_4 => cases h
    case h_2 i contexts ok error hmain =>
      split at h
      case h_1 hended => cases h; exact .got hmain hended
      case h_2 hended => cases h; exact .caught hmain hended
      case h_3 => cases h
    case h_3 => cases h
  | proceed =>
    simp only [step] at h
    split at h
    case h_1 hmain => cases h; exact .parallel hmain
    case h_2 hmain => cases h; exact .collect hmain
    case h_3 hmain => cases h; exact .leave hmain
    case h_4 => cases h

/-- What `load_tensors` does next is not in the books. -/
theorem Books.main {main : Main setup.Index} (h : Books s) : Books { s with main } :=
  ⟨h.loads, h.size, h.full, h.fresh, h.once, h.someone, h.guard, h.quiet, h.cancels⟩

/-- A load that is begun is at the head of its loop. -/
@[simp] theorem State.begin_self (s : State setup) (i : setup.Index) :
    (s.begin i).loads i = { s.loads i with point := (setup.job i).loop 0 } :=
  Function.update_self ..

/-- The other loads are not touched when one begins. -/
theorem State.begin_of_ne {j : setup.Index} (hj : j ≠ i) : (s.begin i).loads j = s.loads j :=
  Function.update_of_ne hj _ _

/-- To begin a load that was idle keeps the books, since it has placed nothing yet. -/
theorem begin_books (h : Books s) (hidle : (s.loads i).point = .idle) : Books (s.begin i) := by
  obtain ⟨hpast, hgoing, -, hexchanging, hunmapping, hinside⟩ := (setup.job i).loop_quiet 0
  obtain ⟨horder, hle, hplaced, -⟩ := h.loads i
  rw [hidle] at hplaced
  obtain ⟨hcontents, hadded⟩ := hplaced (0, 0) rfl
  have hpoint : ((s.begin i).loads i).point = (setup.job i).loop 0 := by simp
  have hother : ∀ j, j ≠ i → (s.begin i).loads j = s.loads j := fun j hj =>
    State.begin_of_ne hj
  -- where a load is that is at no such point before its first tensor
  have hat : ∀ p : Point, (setup.job i).loop 0 ≠ p → ∀ j, ((s.begin i).loads j).point = p →
      (s.loads j).point = p := by
    intro p hp j hj
    by_cases hji : j = i
    · rw [hji, hpoint] at hj
      exact absurd hj hp
    · rwa [hother j hji] at hj
  exact {
    loads := by
      intro j
      by_cases hji : j = i
      · subst hji
        rw [State.begin_self]
        rcases (setup.job j).loop_cases 0 with ⟨hfirst, hloop⟩ | ⟨hnone, hloop⟩
        · refine ⟨horder, hle, ?_, ?_⟩
          · rw [hloop]
            rintro _ ⟨⟩
            exact ⟨hcontents, hadded⟩
          · rw [hloop]
            rintro _ ⟨⟩
            exact hfirst
        · have hzero : (setup.job j).tensors.length = 0 := by omega
          refine ⟨horder, hle, ?_, ?_⟩
          · rw [hloop]
            rintro _ ⟨⟩
            rw [hzero]
            exact ⟨hcontents, hadded⟩
          · rw [hloop]
            rintro _ ⟨⟩
      · rw [hother j hji]
        exact h.loads j
    size := by
      refine h.size.trans (Finset.sum_congr rfl fun j _ => ?_)
      by_cases hji : j = i
      · subst hji
        simp [Load.size]
      · rw [hother j hji]
    full := by
      rintro (hset | ⟨j, hj⟩)
      · exact h.full (.inl hset)
      · exact h.full (.inr ⟨j, hat _ hexchanging j hj⟩)
    fresh := by
      intro hclear
      refine ⟨(h.fresh hclear).1, fun j => ?_⟩
      by_cases hji : j = i
      · rw [hji, hpoint, hpast]
      · rw [hother j hji, (h.fresh hclear).2 j]
    once := by
      intro hset
      obtain ⟨owner, honly, hstate⟩ := h.once hset
      refine ⟨owner, fun j hj => honly j (hat _ hunmapping j hj), ?_⟩
      by_cases hji : owner = i
      · subst hji
        rw [hidle] at hstate
        rw [hpoint]
        rcases hstate with ⟨⟨⟩, -⟩ | ⟨-, hone⟩ | ⟨⟨⟩, -⟩
        exact .inr (.inl ⟨hunmapping, hone⟩)
      · rw [hother owner hji]
        exact hstate
    someone := by
      intro _ _
      refine ⟨i, fun hended => ?_⟩
      rw [← hpoint, hended] at hgoing
      cases hgoing
    guard := by
      intro j
      by_cases hji : j = i
      · rw [hji, hpoint]
        refine (h.guard i).trans ?_
        simp [hidle, hinside]
      · rw [hother j hji]
        exact h.guard j
    quiet := h.quiet
    cancels := by
      intro j hguard hended
      refine h.cancels j hguard (hat _ (fun hloop => ?_) j hended)
      rw [hloop] at hgoing
      cases hgoing }

/-- Each step keeps the books of the memory, of the mapping and of the mutex. -/
theorem step_books (h : Books s) (hstep : Step setup s action s') : Books s' := by
  cases turn_of_step hstep with
  | move hmove => exact move_books h hmove
  | call _ hidle => exact begin_books h hidle
  | spawn _ hidle => exact (begin_books h hidle).main
  | _ => exact h.main

end ShareCompute.Native.ParallelLoad
