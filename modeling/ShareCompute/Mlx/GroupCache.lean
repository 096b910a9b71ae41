import ShareCompute.Library.Dictionary
import ShareCompute.Library.Runs
import ShareCompute.Library.SharedPtr

namespace ShareCompute.Mlx

open ShareCompute.Library

/-!
# The distributed group cache

`0002-distributed-finalize.patch`: `init` keeps every group it makes in a table of backend
names, under the resolved name and mostly under "any" too, and `finalize` empties that table
when no `Group` handle refers to anything in it.

`finalize` decides by use counts: an implementation whose count is above the number of its own
table entries is held by somebody else.  The counts are kept by the shared pointers
themselves, so the model keeps them as control blocks that every copy and every destruction of
a pointer moves; `Counted` is the invariant that they add up, and `finalize_law` reads off it
what `finalize` promises.

How `init` picks a backend is not part of the patch.  What that choice leaves behind, whether
a backend gave a group and the resolved name `bk_`, or that it threw, is an input of the call.
-/

/-- A group implementation; they are numbered as they are made. -/
abbrev GroupImpl := ℕ

/-- How the choice of a backend ends. -/
inductive Selection
  | throws
  /-- whether a backend gave a group (an `EmptyGroup` is made otherwise), and the name -/
  | selected (built : Bool) (bk_ : String)
deriving DecidableEq

/-- What a call hands back to the program. -/
inductive Reply
  | group (impl : GroupImpl)
  | threw
  | finalized (released : Bool)
  | done
deriving DecidableEq

/-- The table of backends, the live `Group` handles and the control blocks of the
    implementations; `made` implementations were made so far. -/
structure Process where
  cache : Dictionary String GroupImpl
  handles : List GroupImpl
  blocks : ControlBlocks GroupImpl
  made : ℕ

namespace Process

/-- The process before its first call: the cache is empty and no group was made. -/
def start : Process := ⟨∅, [], .empty, 0⟩

/-- The implementations in the table, one for each entry. -/
def cached (self : Process) : List GroupImpl := Dictionary.values self.cache

/-- `Group(impl)`: a handle is made from a copy of the pointer. -/
def hand (self : Process) (impl : GroupImpl) : Process :=
  { self with
    handles := impl :: self.handles
    blocks := self.blocks.retain impl }

/-- `cache.insert({name, group})`.  A name that is taken keeps its entry, and the pair that was
    made for it is dropped again. -/
def insert (self : Process) (name : String) (group : GroupImpl) : Process :=
  if name ∈ self.cache then self
  else
    { self with
      cache := self.cache.insert name group
      blocks := self.blocks.retain group }

/-- A new implementation, with its first pointer. -/
def make (self : Process) : Process :=
  { self with
    made := self.made + 1
    blocks := self.blocks.make self.made }

/-- `init` of a name that is not in the table: the local variable `group` is one more pointer
    while the entries are made. -/
def build (self : Process) (built : Bool) (bk_ : String) : Process × Reply :=
  let group := self.made
  let self := self.make
  let self := if built then self.insert "any" group else self
  let self := (self.insert bk_ group).hand group
  ({ self with blocks := self.blocks.release group }, .group group)

/-- `init(strict, bk)`: the cached group under the name, or a new one of the backend that was
    selected. -/
def init (self : Process) (bk : String) (selection : Selection) : Process × Reply :=
  match self.cache.lookup bk with
  | some impl => (self.hand impl, .group impl)
  | none =>
      match selection with
      | .throws => (self, .threw)
      | .selected built bk_ => self.build built bk_

/-- A handle is copied, and the copy refers to the same group. -/
def copy (self : Process) (i : ℕ) : Process :=
  match self.handles[i]? with
  | some impl => self.hand impl
  | none => self

/-- A handle is dropped, and with the last one to it the group dies. -/
def drop (self : Process) (i : ℕ) : Process :=
  match self.handles[i]? with
  | some impl =>
      { self with
        handles := self.handles.eraseIdx i
        blocks := self.blocks.release impl }
  | none => self

/-- The first loop of `finalize`: how many entries alias each implementation. -/
def cacheRefs (impls : List GroupImpl) : GroupImpl → ℕ :=
  impls.foldl (fun refs impl => fun k => if k = impl then refs k + 1 else refs k) (fun _ => 0)

/-- `finalize()`: the cache is cleared, unless somebody else holds a group of it; then nothing
    changes. -/
def finalize (self : Process) : Process × Bool :=
  -- checked across the whole cache before anything is cleared
  if self.cached.any (fun impl => cacheRefs self.cached impl < self.blocks.useCount impl) then
    (self, false)
  else
    ({ self with
      cache := ∅
      blocks := self.blocks.releaseAll self.cached }, true)

/-- What a program can do with groups. -/
inductive Operation
  | init (bk : String) (selection : Selection)
  | copy (i : ℕ)
  | drop (i : ℕ)
  | finalize

/-- One call of the library, with what it returns. -/
def perform (self : Process) : Operation → Process × Reply
  | .init bk selection => self.init bk selection
  | .copy i => (self.copy i, .done)
  | .drop i => (self.drop i, .done)
  | .finalize => (self.finalize.1, .finalized self.finalize.2)

/-- The library as a machine, for the laws about whole histories. -/
def machine : Machine Process Operation Reply := ⟨perform⟩

/-! ### The pointers add up -/

/-- How often the cache refers to a group is how often the group occurs in it. -/
theorem cacheRefs_eq_count (impls : List GroupImpl) (k : GroupImpl) :
    cacheRefs impls k = impls.count k := by
  have key : ∀ (impls : List GroupImpl) (refs : GroupImpl → ℕ),
      impls.foldl (fun refs impl => fun k => if k = impl then refs k + 1 else refs k) refs k
        = refs k + impls.count k := by
    intro impls
    induction impls with
    | nil => intro refs; rfl
    | cons impl impls ih =>
      intro refs
      rw [List.foldl_cons, ih]
      by_cases hk : k = impl
      · subst hk
        rw [List.count_cons_self, if_pos rfl]
        omega
      · rw [List.count_cons_of_ne (Ne.symm hk), if_neg hk]
  rw [cacheRefs, key]
  omega

/-- Every pointer is a table entry, a handle or one of `locals`, and every implementation was
    made before. -/
structure Counted (p : Process) (locals : List GroupImpl) : Prop where
  balanced : p.blocks.Balanced (p.cached ++ p.handles ++ locals)
  cached_made : ∀ impl ∈ p.cached, impl < p.made
  handles_made : ∀ impl ∈ p.handles, impl < p.made
  locals_made : ∀ impl ∈ locals, impl < p.made
  destroyed_made : ∀ impl ∈ p.blocks.destroyed, impl < p.made

/-- At the start there are no groups, so all counts are right. -/
theorem Counted.start : start.Counted [] where
  balanced := .empty
  cached_made _ h := absurd h List.not_mem_nil
  handles_made _ h := absurd h List.not_mem_nil
  locals_made _ h := absurd h List.not_mem_nil
  destroyed_made _ h := absurd h List.not_mem_nil

variable {self : Process} {locals : List GroupImpl} {impl : GroupImpl}

/-- Handing out a group that is held adds a handle and one to its count. -/
theorem Counted.hand (h : self.Counted locals)
    (hheld : impl ∈ self.cached ++ self.handles ++ locals) :
    (self.hand impl).Counted locals := by
  have hmade : impl < self.made := by
    rcases List.mem_append.mp hheld with hheld | hheld
    · rcases List.mem_append.mp hheld with hheld | hheld
      · exact h.cached_made impl hheld
      · exact h.handles_made impl hheld
    · exact h.locals_made impl hheld
  refine ⟨?_, h.cached_made, ?_, h.locals_made, h.destroyed_made⟩
  · refine (h.balanced.retain hheld).perm ?_
    show (impl :: (self.cached ++ self.handles ++ locals)).Perm
      (self.cached ++ impl :: self.handles ++ locals)
    simp only [List.append_assoc]
    exact List.perm_middle.symm
  · intro k hk
    rcases List.mem_cons.mp hk with rfl | hk
    · exact hmade
    · exact h.handles_made k hk

/-- Putting a group into the cache adds one to its count, unless the name was taken. -/
theorem Counted.insert (h : self.Counted locals) (name : String) (hlocal : impl ∈ locals) :
    (self.insert name impl).Counted locals := by
  unfold Process.insert
  split
  · exact h
  · next hname =>
    have hcached : Dictionary.values (self.cache.insert name impl) = impl :: self.cached :=
      Dictionary.values_insert_of_notMem hname impl
    refine ⟨?_, ?_, h.handles_made, h.locals_made, h.destroyed_made⟩
    · show (self.blocks.retain impl).Balanced
        (Dictionary.values (self.cache.insert name impl) ++ self.handles ++ locals)
      rw [hcached]
      exact h.balanced.retain (List.mem_append_right _ hlocal)
    · show ∀ k ∈ Dictionary.values (self.cache.insert name impl), k < self.made
      rw [hcached]
      intro k hk
      rcases List.mem_cons.mp hk with rfl | hk
      · exact h.locals_made k hlocal
      · exact h.cached_made k hk

/-- The new implementation is held by the local variable alone. -/
theorem Counted.make (h : self.Counted []) : self.make.Counted [self.made] := by
  have hnew : self.made ∉ self.cached ++ self.handles ++ [] := by
    intro hmem
    rw [List.append_nil] at hmem
    rcases List.mem_append.mp hmem with hmem | hmem
    · exact absurd (h.cached_made _ hmem) (lt_irrefl _)
    · exact absurd (h.handles_made _ hmem) (lt_irrefl _)
  have hdead : self.made ∉ self.blocks.destroyed :=
    fun hmem => absurd (h.destroyed_made _ hmem) (lt_irrefl _)
  refine ⟨?_, ?_, ?_, ?_, ?_⟩
  · refine (h.balanced.make hnew hdead).perm ?_
    show (self.made :: (self.cached ++ self.handles ++ [])).Perm
      (self.cached ++ self.handles ++ [self.made])
    rw [List.append_nil]
    exact (List.perm_append_singleton _ _).symm
  · exact fun k hk => Nat.lt_succ_of_lt (h.cached_made k hk)
  · exact fun k hk => Nat.lt_succ_of_lt (h.handles_made k hk)
  · intro k hk
    rw [List.mem_singleton.mp hk]
    exact Nat.lt_succ_self _
  · exact fun k hk => Nat.lt_succ_of_lt (h.destroyed_made k hk)

/-- Making a group leaves every count right, whether a backend gave one or not. -/
theorem Counted.build (h : self.Counted []) (built : Bool) (bk_ : String) :
    (self.build built bk_).1.Counted [] := by
  have hany : (if built then self.make.insert "any" self.made else self.make).Counted
      [self.made] := by
    split
    · exact h.make.insert "any" (List.mem_singleton_self _)
    · exact h.make
  have hlocal : ∀ p : Process, self.made ∈ p.cached ++ p.handles ++ [self.made] :=
    fun p => List.mem_append_right _ (List.mem_singleton_self _)
  have hhand := (hany.insert bk_ (List.mem_singleton_self _)).hand (hlocal _)
  -- the local variable goes out of scope
  have hscope := hhand.balanced.perm (List.perm_append_singleton _ _)
  have hleft := hscope.release
  refine ⟨?_, hhand.cached_made, hhand.handles_made, by simp, ?_⟩
  · rw [List.append_nil]
    exact hleft
  · intro k hk
    rcases (hscope.mem_destroyed_release k).mp hk with hk | ⟨rfl, -⟩
    · exact hhand.destroyed_made k hk
    · exact hhand.locals_made _ (List.mem_singleton_self _)

/-- A group that is found in the cache is one of the cached ones. -/
theorem mem_cached_of_lookup {bk : String} (h : self.cache.lookup bk = some impl) :
    impl ∈ self.cached := Dictionary.mem_values.mpr ⟨bk, h⟩

/-- A call of `init` leaves every count right, whatever it returns. -/
theorem Counted.init (h : self.Counted []) (bk : String) (selection : Selection) :
    (self.init bk selection).1.Counted [] := by
  unfold Process.init
  split
  · next impl himpl =>
    refine h.hand ?_
    rw [List.append_nil]
    exact List.mem_append_left _ (mem_cached_of_lookup himpl)
  · cases selection with
    | throws => exact h
    | selected built bk_ => exact h.build built bk_

/-- To copy a handle adds one to the count of its group. -/
theorem Counted.copy (h : self.Counted []) (i : ℕ) : (self.copy i).Counted [] := by
  unfold Process.copy
  split
  · next impl himpl =>
    refine h.hand ?_
    rw [List.append_nil]
    exact List.mem_append_right _ (List.mem_of_getElem? himpl)
  · exact h

/-- To drop a handle takes one from the count of its group. -/
theorem Counted.drop (h : self.Counted []) (i : ℕ) : (self.drop i).Counted [] := by
  unfold Process.drop
  split
  · next impl himpl =>
    have hheld : impl ∈ self.handles := List.mem_of_getElem? himpl
    obtain ⟨hi, hget⟩ := List.getElem?_eq_some_iff.mp himpl
    have hperm : (self.cached ++ self.handles ++ []).Perm
        (impl :: (self.cached ++ self.handles.eraseIdx i ++ [])) := by
      rw [List.append_nil, List.append_nil]
      have herase : (impl :: self.handles.eraseIdx i).Perm self.handles :=
        hget ▸ List.getElem_cons_eraseIdx_perm hi
      exact (herase.symm.append_left self.cached).trans List.perm_middle
    have hscope := h.balanced.perm hperm
    refine ⟨hscope.release, h.cached_made, ?_, h.locals_made, ?_⟩
    · exact fun k hk => h.handles_made k (List.mem_of_mem_eraseIdx hk)
    · intro k hk
      rcases (hscope.mem_destroyed_release k).mp hk with hk | ⟨rfl, -⟩
      · exact h.destroyed_made k hk
      · exact h.handles_made _ hheld
  · exact h

/-! ### What `finalize` decides -/

/-- `finalize` gives up exactly when a handle refers to something in the table. -/
theorem Counted.finalize_iff (h : self.Counted []) :
    self.finalize.2 = true ↔ ∀ impl ∈ self.handles, impl ∉ self.cached := by
  have hcount : ∀ impl, self.blocks.useCount impl
      = self.cached.count impl + self.handles.count impl := by
    intro impl
    have hall := h.balanced.count impl
    rwa [List.append_nil, List.count_append] at hall
  have hheld : self.cached.any (fun impl => cacheRefs self.cached impl < self.blocks.useCount impl)
      = true ↔ ∃ impl ∈ self.cached, impl ∈ self.handles := by
    simp only [List.any_eq_true, decide_eq_true_eq, cacheRefs_eq_count, hcount]
    refine exists_congr fun impl => and_congr_right fun _ => ?_
    rw [← List.count_pos_iff]
    omega
  unfold Process.finalize
  split
  · next hany =>
    obtain ⟨impl, hcached, hhandle⟩ := hheld.mp hany
    exact iff_of_false Bool.false_ne_true fun hfree => hfree impl hhandle hcached
  · next hnone =>
    refine iff_of_true rfl fun impl hhandle hcached => hnone ?_
    exact hheld.mpr ⟨impl, hcached, hhandle⟩

/-- A refused `finalize` changes nothing, neither the cache nor the groups. -/
theorem finalize_eq_of_false (h : self.finalize.2 = false) : self.finalize.1 = self := by
  unfold Process.finalize at h ⊢
  split
  · rfl
  · next hnone => simp [hnone] at h

/-- An accepted `finalize` empties the cache and releases what was in it. -/
theorem finalize_eq_of_true (h : self.finalize.2 = true) :
    self.finalize.1
      = { self with cache := ∅, blocks := self.blocks.releaseAll self.cached } := by
  unfold Process.finalize at h ⊢
  split
  · next hany => simp [hany] at h
  · rfl

/-- A call of `finalize` leaves every count right. -/
theorem Counted.finalize (h : self.Counted []) : self.finalize.1.Counted [] := by
  cases hreleased : self.finalize.2 with
  | false => rwa [finalize_eq_of_false hreleased]
  | true =>
    rw [finalize_eq_of_true hreleased]
    have hall : self.blocks.Balanced (self.cached ++ (self.handles ++ [])) := by
      rw [← List.append_assoc]
      exact h.balanced
    refine ⟨hall.releaseAll, fun k hk => absurd hk List.not_mem_nil, h.handles_made,
      h.locals_made, ?_⟩
    intro k hk
    rcases (hall.mem_destroyed_releaseAll k).mp hk with hk | ⟨hk, -⟩
    · exact h.destroyed_made k hk
    · exact h.cached_made k hk

/-- **Step lemma.**  Every operation keeps the use counts right. -/
theorem Counted.perform (h : self.Counted []) (op : Operation) :
    (self.perform op).1.Counted [] := by
  cases op with
  | init bk selection => exact h.init bk selection
  | copy i => exact h.copy i
  | drop i => exact h.drop i
  | finalize => exact h.finalize

/-! ### The law of `finalize` -/

/-- What use counts, `finalize` and the `init` after it promise in one state. -/
structure FinalizeLaw (p : Process) : Prop where
  /-- the use count of a cached implementation is its entries plus its handles -/
  use_count : ∀ impl ∈ p.cached,
    p.blocks.useCount impl = p.cached.count impl + p.handles.count impl
  released_iff : p.finalize.2 = true ↔ ∀ impl ∈ p.handles, impl ∉ p.cached
  /-- a refusal changes nothing, and a cached name still gives the same group -/
  refused : p.finalize.2 = false → p.finalize.1 = p ∧
    ∀ bk impl selection, p.cache.lookup bk = some impl →
      (p.finalize.1.init bk selection).2 = .group impl
  /-- a teardown empties the table … -/
  emptied : p.finalize.2 = true → p.finalize.1.cache = ∅
  /-- … destroys what was in it, each once … -/
  destroyed : p.finalize.2 = true → ∀ impl ∈ p.cached,
    p.blocks.destroyed.count impl = 0 ∧ p.finalize.1.blocks.destroyed.count impl = 1
  /-- … and makes the next `init` build a group that never existed before -/
  rebuilt : p.finalize.2 = true → ∀ bk built bk_, ∃ impl,
    (p.finalize.1.init bk (.selected built bk_)).2 = .group impl ∧
      impl ∉ p.cached ∧ impl ∉ p.handles ∧ impl ∉ p.finalize.1.blocks.destroyed

/-- With the counts right, `finalize` keeps its promises. -/
theorem FinalizeLaw.of_counted (h : self.Counted []) : self.FinalizeLaw where
  use_count impl _ := by
    have hall := h.balanced.count impl
    rwa [List.append_nil, List.count_append] at hall
  released_iff := h.finalize_iff
  refused hrefused := by
    rw [finalize_eq_of_false hrefused]
    refine ⟨rfl, fun bk impl selection hcached => ?_⟩
    unfold Process.init
    rw [hcached]
  emptied hreleased := by rw [finalize_eq_of_true hreleased]
  destroyed hreleased impl himpl := by
    have hall : self.blocks.Balanced (self.cached ++ (self.handles ++ [])) := by
      rw [← List.append_assoc]
      exact h.balanced
    have hfree : impl ∉ self.handles ++ [] := by
      rw [List.append_nil]
      exact fun hhandle => h.finalize_iff.mp hreleased impl hhandle himpl
    have halive : impl ∉ self.blocks.destroyed :=
      fun hdead => hall.dead impl hdead (List.mem_append_left _ himpl)
    have hgone := (hall.mem_destroyed_releaseAll impl).mpr (.inr ⟨himpl, hfree⟩)
    rw [finalize_eq_of_true hreleased]
    exact ⟨List.count_eq_zero.mpr halive, List.count_eq_one_of_mem hall.releaseAll.nodup hgone⟩
  rebuilt hreleased bk built bk_ := by
    have hafter := h.finalize
    have hmade : self.finalize.1.made = self.made := by rw [finalize_eq_of_true hreleased]
    refine ⟨self.made, ?_, ?_, ?_, ?_⟩
    · rw [finalize_eq_of_true hreleased]
      rfl
    · exact fun hmem => lt_irrefl _ (h.cached_made _ hmem)
    · exact fun hmem => lt_irrefl _ (h.handles_made _ hmem)
    · exact fun hmem => lt_irrefl _ (hmade ▸ hafter.destroyed_made _ hmem)

/-- **Distributed finalize.**  After every history of `init` (any names, whatever the choice of
    a backend leaves behind), copies and drops of handles, and `finalize`, in any order. -/
theorem finalize_law (ops : List Operation) : (machine.exec start ops).FinalizeLaw :=
  .of_counted (machine.invariant (I := fun p => p.Counted []) .start
    (fun _ op h => h.perform op) ops)

/-- Two names alias one group: with its handle alive `finalize` refuses, without it the group
    goes once. -/
example : ((machine.exec start [.init "any" (.selected true "ring"), .finalize]).cached,
    (machine.exec start
      [.init "any" (.selected true "ring"), .drop 0, .finalize]).blocks.destroyed)
    = ([0, 0], [0]) := by decide +kernel

end Process

end ShareCompute.Mlx
