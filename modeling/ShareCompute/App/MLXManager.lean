import ShareCompute.Mlx.GroupCache
import Mathlib.Data.List.Dedup

namespace ShareCompute.App

open ShareCompute.Library ShareCompute.Mlx

/-!
# The group of the app's ring

`Ring/Manager.swift` and what it stands on: `MLXManager` makes a `DistributedGroup`, the layers of
a loaded model hold it too (`AutoParallel.swift`), and so does every task that still runs such a
model.  A `DistributedGroup` owns one handle of the C++ library (`mlx-swift/0001`), which goes with
the last reference to the object; the library itself keeps its groups until `finalize`
(`Mlx/GroupCache.lean`).

* `RingHost` — the process: the library, the objects, and who refers to them.
* `Formed` — the handles of the library are those of the objects that somebody refers to, and the
  library never has more than one group that is alive.
* `reform_law` — a re-formation that succeeds leaves one group, made just now; one that is refused
  leaves the old one to those who held it; and if no task runs, releasing the model is enough.
-/

/-- What a re-formation throws; the first one stands for every error that carries a message of its
    own. -/
inductive RingError
  | failed (message : String)
  | handlesOutlivedTeardown
  | finalizeUnavailable
deriving DecidableEq

/-- The `DistributedGroup` objects, numbered as they are made. -/
abbrev DistributedGroup := ℕ

/-- The process as the app sees it, with everything that refers to a `DistributedGroup`. -/
structure RingHost where
  process : Process
  /-- the group that each object has a handle of; one whose `initialize` failed has none -/
  wraps : List (Option GroupImpl)
  /-- `MLXManager.group` -/
  group : Option DistributedGroup
  /-- what the layers of `ModelManager.currentModel` hold -/
  model : Option DistributedGroup
  /-- what running tasks hold -/
  tasks : List DistributedGroup

namespace RingHost

/-- The process when the app begins: no object was made, and nothing refers to one. -/
def start : RingHost := ⟨.start, [], none, none, []⟩

/-- Who refers to which object: the manager, the layers of the loaded model, and the tasks that
    run. -/
def references (self : RingHost) : List DistributedGroup :=
  self.group.toList ++ (self.model.toList ++ self.tasks)

/-- The group behind an object, if its handle holds one. -/
def impl (self : RingHost) (object : DistributedGroup) : Option GroupImpl :=
  self.wraps[object]?.join

/-- One reference to the object is gone.  With the last one, `deinit` frees its handle. -/
def release (self : RingHost) (object : DistributedGroup) : RingHost :=
  if object ∈ self.references then self
  else
    match self.impl object with
    | some impl => { self with process := self.process.drop (self.process.handles.idxOf impl) }
    | none => self

/-- What may be no object is released if it is one. -/
def releaseAny (self : RingHost) : Option DistributedGroup → RingHost
  | some object => self.release object
  | none => self

/-- The manager's reference is replaced; the new object is retained before the old one is
    released. -/
def setGroup (self : RingHost) (group : Option DistributedGroup) : RingHost :=
  { self with group := group }.releaseAny self.group

/-- The model's reference is replaced; the new object is retained before the old one is released. -/
def setModel (self : RingHost) (model : Option DistributedGroup) : RingHost :=
  { self with model := model }.releaseAny self.model

/-- The message of the C++ library when no backend can be initialised. -/
def strictFailure : String := "[distributed] Couldn't initialize any distributed backend"

/-- `DistributedGroup.initialize(strict: true)`: the object, and whether MLX reported an error.
    `backend` is the one that gives a group; if there is none, a strict `init` throws, and the C
    function gives an empty handle. -/
def initializeGroup (self : RingHost) (backend : Option String) :
    RingHost × DistributedGroup × Option String :=
  let selection := match backend with
    | some bk_ => Selection.selected true bk_
    | none => Selection.throws
  match self.process.init "any" selection with
  | (process, .group impl) =>
      ({ self with process := process, wraps := self.wraps ++ [some impl] },
        self.wraps.length, none)
  | (process, _) =>
      ({ self with process := process, wraps := self.wraps ++ [none] }, self.wraps.length,
        some strictFailure)

/-- `hostfile` says whether writing the host file failed. -/
def initMLX (self : RingHost) (hostfile : Option String) (backend : Option String) :
    RingHost × Except RingError Unit :=
  match hostfile with
  | some message => (self, .error (.failed message))
  | none =>
      let (self, group, error) := self.initializeGroup backend
      (self.setGroup (some group),
        match error with
        | some message => .error (.failed message)
        | none => .ok ())

/-- `canReform` says whether the build has `DistributedGroup.finalize`. -/
def teardown (self : RingHost) (canReform : Bool) : RingHost × Except RingError Unit :=
  let self := self.setGroup none
  if canReform then
    match self.process.finalize with
    | (process, true) => ({ self with process := process }, .ok ())
    | (process, false) => ({ self with process := process }, .error .handlesOutlivedTeardown)
  else (self, .error .finalizeUnavailable)

/-- `RingManager.reform`: the manager lets its group go, the library is finalised, and a group is
    made anew. -/
def reform (self : RingHost) (canReform : Bool) (hostfile : Option String)
    (backend : Option String) : RingHost × Except RingError Unit :=
  match self.teardown canReform with
  | (self, .ok _) => self.initMLX hostfile backend
  | (self, .error error) => (self, .error error)

/-- A load wraps the layers of its model. -/
def wrapLayers (self : RingHost) : RingHost :=
  { self with tasks := self.group.toList ++ self.tasks }

/-- The model of a load becomes the current one; its layers hold what the load at `i` holds, if
    they were wrapped. -/
def finishLoad (self : RingHost) (i : Option ℕ) : RingHost :=
  self.setModel (i.bind (self.tasks[·]?))

/-- Before a re-formation the model is unloaded, and with it what its layers hold. -/
def releaseModelForReformation (self : RingHost) : RingHost := self.setModel none

/-- A generation takes the loaded model, and with it a reference to the group of its layers. -/
def startTask (self : RingHost) : RingHost :=
  { self with tasks := self.model.toList ++ self.tasks }

/-- A load or a generation ends, and the reference that it held is gone. -/
def endTask (self : RingHost) (i : ℕ) : RingHost :=
  { self with tasks := self.tasks.eraseIdx i }.releaseAny self.tasks[i]?

/-- The calls that the app makes of the manager, in any order. -/
inductive Call
  | initMLX (hostfile : Option String) (backend : Option String)
  | teardown (canReform : Bool)
  | reform (canReform : Bool) (hostfile : Option String) (backend : Option String)
  | wrapLayers
  | finishLoad (i : Option ℕ)
  | releaseModelForReformation
  | startTask
  | endTask (i : ℕ)

/-- One call of the app, with what it returns or throws. -/
def perform (self : RingHost) : Call → RingHost × Except RingError Unit
  | .initMLX hostfile backend => self.initMLX hostfile backend
  | .teardown canReform => self.teardown canReform
  | .reform canReform hostfile backend => self.reform canReform hostfile backend
  | .wrapLayers => (self.wrapLayers, .ok ())
  | .finishLoad i => (self.finishLoad i, .ok ())
  | .releaseModelForReformation => (self.releaseModelForReformation, .ok ())
  | .startTask => (self.startTask, .ok ())
  | .endTask i => (self.endTask i, .ok ())

/-- The app's calls as a machine, for the laws about whole histories. -/
def machine : Machine RingHost Call (Except RingError Unit) := ⟨perform⟩

end RingHost

/-! ### The library under the app -/

/-- A group that has been made and not been destroyed. -/
def Alive (p : Process) (impl : GroupImpl) : Prop := impl < p.made ∧ impl ∉ p.blocks.destroyed

/-- **The library that is only asked for "any" group, and strictly.** -/
structure Solo (p : Process) : Prop where
  counted : p.Counted []
  handles : ∀ impl ∈ p.handles, impl ∈ p.cached
  any : ∀ impl ∈ p.cached, p.cache.lookup "any" = some impl
  alive : ∀ impl, Alive p impl → impl ∈ p.cached

namespace Solo

variable {p : Process} {impl : GroupImpl}

/-- The library begins with an empty cache. -/
theorem start : Solo .start where
  counted := .start
  handles := by simp [Process.start]
  any := fun _ h => absurd h List.not_mem_nil
  alive := fun _ h => absurd h.1 (Nat.not_lt_zero _)

/-- A group of the library is alive exactly if it is the cached one. -/
theorem alive_iff (h : Solo p) : Alive p impl ↔ impl ∈ p.cached := by
  refine ⟨h.alive impl, fun hmem => ⟨h.counted.cached_made impl hmem, fun hdead => ?_⟩⟩
  refine h.counted.balanced.dead impl hdead ?_
  exact List.mem_append_left _ (List.mem_append_left _ hmem)

/-- What is there is handed out again. -/
theorem hand (h : Solo p) (hmem : impl ∈ p.cached) : Solo (p.hand impl) where
  counted := h.counted.hand (List.mem_append_left _ (List.mem_append_left _ hmem))
  handles := by
    intro other hother
    rcases List.mem_cons.mp hother with rfl | hother
    · exact hmem
    · exact h.handles other hother
  any := h.any
  alive := h.alive

/-- With nothing in the table there are no handles. -/
theorem handles_eq_nil (h : Solo p) (hcache : p.cache = ∅) : p.handles = [] := by
  refine List.eq_nil_iff_forall_not_mem.mpr fun impl hmem => ?_
  have hcached := h.any impl (h.handles impl hmem)
  rw [hcache] at hcached
  simp at hcached

/-- When the cache has no group of any kind, it is empty. -/
theorem cache_eq_empty (h : Solo p) (hnone : p.cache.lookup "any" = none) : p.cache = ∅ := by
  have hnil : p.cached = [] := by
    refine List.eq_nil_iff_forall_not_mem.mpr fun impl hmem => ?_
    rw [h.any impl hmem] at hnone
    cases hnone
  exact AList.ext (List.map_eq_nil_iff.mp hnil)

/-- The first group of an empty table is the only one in it. -/
theorem build (h : Solo p) (hcache : p.cache = ∅) (bk_ : String) :
    Solo (p.build true bk_).1 ∧ (p.build true bk_).1.handles = p.made :: p.handles := by
  have hcounted := h.counted.build true bk_
  have hany : "any" ∉ p.make.cache := by
    show "any" ∉ p.cache
    rw [hcache]
    exact AList.notMem_empty _
  have hfirst : p.make.insert "any" p.made = { p.make with
      cache := (∅ : Dictionary String GroupImpl).insert "any" p.made
      blocks := p.make.blocks.retain p.made } := by
    rw [Process.insert, if_neg hany]
    show ({ p.make with cache := p.cache.insert "any" p.made, blocks := _ } : Process) = _
    rw [hcache]
  generalize hbuilt : (p.make.insert "any" p.made).insert bk_ p.made = built
  have hresult : (p.build true bk_).1
      = { built.hand p.made with blocks := (built.hand p.made).blocks.release p.made } := by
    rw [← hbuilt]
    rfl
  -- the entry under the name of the backend is the same group
  have hentries : (∀ impl ∈ built.cached, impl = p.made) ∧
      built.cache.lookup "any" = some p.made ∧ built.handles = p.handles ∧
      built.made = p.made + 1 ∧ built.blocks.destroyed = p.blocks.destroyed := by
    rw [← hbuilt, hfirst, Process.insert]
    by_cases hbk : bk_ = "any"
    · rw [if_pos ((AList.mem_insert _).mpr (.inl hbk))]
      refine ⟨?_, AList.lookup_insert _, rfl, rfl, rfl⟩
      show ∀ impl ∈ Dictionary.values _, _
      rw [Dictionary.values_insert_of_notMem (AList.notMem_empty _)]
      exact fun impl hmem => List.mem_singleton.mp hmem
    · have hnew : bk_ ∉ (∅ : Dictionary String GroupImpl).insert "any" p.made := fun hmem =>
        ((AList.mem_insert _).mp hmem).elim hbk (AList.notMem_empty _)
      rw [if_neg hnew]
      refine ⟨?_, ?_, rfl, rfl, rfl⟩
      · show ∀ impl ∈ Dictionary.values _, _
        rw [Dictionary.values_insert_of_notMem hnew,
          Dictionary.values_insert_of_notMem (AList.notMem_empty _)]
        intro impl hmem
        simpa [Dictionary.values] using hmem
      · show AList.lookup "any" _ = _
        rw [AList.lookup_insert_ne (Ne.symm hbk), AList.lookup_insert]
  obtain ⟨hcached, hlookup, hhandles, hmade, hdestroyed⟩ := hentries
  have hmem : p.made ∈ built.cached := Dictionary.mem_values.mpr ⟨"any", hlookup⟩
  rw [hresult] at hcounted ⊢
  refine ⟨⟨hcounted, ?_, ?_, ?_⟩, congrArg (p.made :: ·) hhandles⟩
  · intro impl himpl
    rcases List.mem_cons.mp himpl with rfl | himpl
    · exact hmem
    · rw [hhandles, h.handles_eq_nil hcache] at himpl
      cases himpl
  · intro impl himpl
    rw [hcached impl himpl]
    exact hlookup
  · rintro impl ⟨hlt, halive⟩
    rw [show ({ built.hand p.made with
      blocks := (built.hand p.made).blocks.release p.made } : Process).made = p.made + 1 from hmade,
      Nat.lt_succ_iff_lt_or_eq] at hlt
    rcases hlt with hlt | rfl
    · -- an older one is destroyed
      have hold : impl ∉ p.blocks.destroyed := by
        intro hdead
        rw [← hdestroyed] at hdead
        exact halive (ControlBlocks.mem_destroyed_release_of_mem hdead)
      have hgone := h.alive impl ⟨hlt, hold⟩
      rw [Process.cached, hcache] at hgone
      cases hgone
    · exact hmem

/-- What a strict `init` of any backend comes to. -/
theorem init (h : Solo p) :
    (∃ impl, p.cache.lookup "any" = some impl ∧
      ∀ selection, p.init "any" selection = (p.hand impl, .group impl)) ∨
    (p.cache = ∅ ∧ p.init "any" .throws = (p, .threw) ∧
      ∀ bk_, p.init "any" (.selected true bk_) = ((p.build true bk_).1, .group p.made)) := by
  cases hlookup : p.cache.lookup "any" with
  | some impl =>
    refine .inl ⟨impl, rfl, fun selection => ?_⟩
    simp only [Process.init, hlookup]
  | none =>
    refine .inr ⟨h.cache_eq_empty hlookup, ?_, fun bk_ => ?_⟩
    · simp only [Process.init, hlookup]
    · simp only [Process.init, hlookup]
      rfl

/-- A handle is freed, and still one group at most is alive. -/
theorem drop (h : Solo p) (i : ℕ) : Solo (p.drop i) := by
  have hcounted := h.counted.drop i
  unfold Process.drop at hcounted ⊢
  split at hcounted
  · next impl himpl =>
    refine ⟨hcounted, fun other hother => h.handles other (List.mem_of_mem_eraseIdx hother),
      h.any, ?_⟩
    rintro other ⟨hlt, halive⟩
    exact h.alive other ⟨hlt, fun hdead =>
      halive (ControlBlocks.mem_destroyed_release_of_mem hdead)⟩
  · exact h

/-- To drop a handle does not touch the library's cache. -/
theorem drop_cache (p : Process) (i : ℕ) : (p.drop i).cache = p.cache := by
  unfold Process.drop
  split <;> rfl

/-- To drop a handle makes no group. -/
theorem drop_made (p : Process) (i : ℕ) : (p.drop i).made = p.made := by
  unfold Process.drop
  split <;> rfl

/-- `finalize` tears the group down if it has no handle, and else changes nothing. -/
theorem finalize (h : Solo p) :
    (p.handles = [] ∧ p.finalize.2 = true ∧ p.finalize.1.cache = ∅ ∧
      p.finalize.1.handles = [] ∧ p.finalize.1.made = p.made ∧ Solo p.finalize.1) ∨
    (p.handles ≠ [] ∧ p.finalize = (p, false)) := by
  have hiff := h.counted.finalize_iff
  by_cases hnil : p.handles = []
  · have hreleased : p.finalize.2 = true := by
      rw [hiff, hnil]
      simp
    have heq := Process.finalize_eq_of_true hreleased
    refine .inl ⟨hnil, hreleased, by rw [heq], by rw [heq]; exact hnil, by rw [heq], ?_⟩
    have hcounted := h.counted.finalize
    refine ⟨hcounted, ?_, ?_, ?_⟩
    · rw [heq]
      simp [hnil]
    · rw [heq]
      exact fun _ hmem => absurd hmem List.not_mem_nil
    · -- whoever was alive was in the table, and is gone with it
      rintro impl ⟨hlt, halive⟩
      exfalso
      rw [heq] at hlt halive
      have hbalanced : p.blocks.Balanced (p.cached ++ []) := by
        have hall := h.counted.balanced
        rwa [hnil, List.append_nil] at hall
      have hmem := hbalanced.mem_destroyed_releaseAll impl
      by_cases hdead : impl ∈ p.blocks.destroyed
      · exact halive (hmem.mpr (.inl hdead))
      · exact halive (hmem.mpr (.inr ⟨h.alive impl ⟨hlt, hdead⟩, List.not_mem_nil⟩))
  · -- a handle is held, and so the group it belongs to is in use
    refine .inr ⟨hnil, ?_⟩
    have hrefused : p.finalize.2 = false := by
      by_contra hne
      have hfree := hiff.mp (Bool.eq_true_of_not_eq_false hne)
      obtain ⟨impl, hmem⟩ := List.exists_mem_of_ne_nil _ hnil
      exact hfree impl hmem (h.handles impl hmem)
    exact Prod.ext (Process.finalize_eq_of_false hrefused) hrefused

end Solo

namespace RingHost

/-! ### The objects over it -/

/-- The library's handles are those of the objects in `owners`, each once. -/
structure Owned (h : RingHost) (owners : List DistributedGroup) : Prop where
  solo : Solo h.process
  made : ∀ object ∈ owners, object < h.wraps.length
  handles : h.process.handles.Perm (owners.dedup.filterMap h.impl)

/-- **The state of the app**: the owners are those who refer to the objects. -/
def Formed (h : RingHost) : Prop := h.Owned h.references

variable {self : RingHost} {owners owners' : List DistributedGroup} {object : DistributedGroup}

/-- Only who refers to something matters, not how often. -/
theorem Owned.congr (h : self.Owned owners) (hiff : ∀ o, o ∈ owners' ↔ o ∈ owners) :
    self.Owned owners' := by
  refine ⟨h.solo, fun o ho => h.made o ((hiff o).mp ho), ?_⟩
  have hperm : owners'.dedup.Perm owners.dedup :=
    (List.perm_ext_iff_of_nodup (List.nodup_dedup _) (List.nodup_dedup _)).mpr fun o => by
      rw [List.mem_dedup, List.mem_dedup, hiff]
  exact h.handles.trans (hperm.filterMap _).symm

/-- Who refers to what does not change when something else moves. -/
theorem Owned.of_frame {other : RingHost} (h : self.Owned owners)
    (hprocess : other.process = self.process) (hwraps : other.wraps = self.wraps) :
    other.Owned owners := by
  refine ⟨hprocess ▸ h.solo, hwraps ▸ h.made, ?_⟩
  have himpl : other.impl = self.impl := by
    unfold impl
    rw [hwraps]
  rw [hprocess, himpl]
  exact h.handles

/-- The process at its start is formed: there are no objects, and the cache is empty. -/
theorem Formed.start : start.Formed where
  solo := .start
  made := by simp [references, RingHost.start]
  handles := .refl _

/-- What `release` leaves as it was: the cache, what was made, and who refers to which object. -/
theorem release_frame (self : RingHost) (object : DistributedGroup) :
    (self.release object).process.cache = self.process.cache ∧
    (self.release object).process.made = self.process.made ∧
    (self.release object).wraps = self.wraps ∧ (self.release object).group = self.group ∧
    (self.release object).model = self.model ∧ (self.release object).tasks = self.tasks := by
  unfold release
  split
  · exact ⟨rfl, rfl, rfl, rfl, rfl, rfl⟩
  · split
    · exact ⟨Solo.drop_cache .., Solo.drop_made .., rfl, rfl, rfl, rfl⟩
    · exact ⟨rfl, rfl, rfl, rfl, rfl, rfl⟩

/-- **`release`**: the handle goes exactly with the last reference. -/
theorem Owned.release (h : self.Owned (object :: self.references)) :
    (self.release object).Formed := by
  unfold RingHost.release
  split
  · next hmem =>
    refine h.congr fun o => ⟨List.mem_cons_of_mem _, fun ho => ?_⟩
    exact (List.mem_cons.mp ho).elim (fun heq => heq ▸ hmem) id
  · next hlast =>
    have hdedup : (object :: self.references).dedup = object :: self.references.dedup :=
      List.dedup_cons_of_notMem hlast
    have hhandles := h.handles
    rw [hdedup] at hhandles
    have hmade : ∀ o ∈ self.references, o < self.wraps.length :=
      fun o ho => h.made o (List.mem_cons_of_mem _ ho)
    split
    · next impl himpl =>
      rw [List.filterMap_cons_some himpl] at hhandles
      refine ⟨h.solo.drop _, hmade, ?_⟩
      have hmem : impl ∈ self.process.handles := hhandles.mem_iff.mpr (List.mem_cons_self ..)
      have hlt := List.idxOf_lt_length_of_mem hmem
      have hdropped : (self.process.drop (self.process.handles.idxOf impl)).handles
          = self.process.handles.erase impl := by
        rw [Process.drop, List.getElem?_eq_getElem hlt]
        exact List.erase_eq_eraseIdx_of_idxOf rfl |>.symm
      show (self.process.drop _).handles.Perm _
      rw [hdropped]
      have herase := hhandles.erase impl
      rwa [List.erase_cons_head] at herase
    · next hnone =>
      rw [List.filterMap_cons_none hnone] at hhandles
      exact ⟨h.solo, hmade, hhandles⟩

/-- Releasing a reference that was counted leaves the process formed. -/
theorem Owned.releaseAny {old : Option DistributedGroup}
    (h : self.Owned (old.toList ++ self.references)) : (self.releaseAny old).Formed := by
  cases old with
  | none => exact h
  | some object => exact Owned.release h

/-- `MLXManager` takes another group, and the process is well formed again. -/
theorem Owned.setGroup {group : Option DistributedGroup}
    (h : self.Owned (group.toList ++ self.references)) : (self.setGroup group).Formed := by
  have hmoved : ({ self with group := group } : RingHost).Owned
      (self.group.toList ++ ({ self with group := group } : RingHost).references) := by
    refine (h.congr fun o => ?_).of_frame rfl rfl
    simp only [references, List.mem_append]
    tauto
  exact hmoved.releaseAny

/-- A model that was counted among the references can take the place of the old one. -/
theorem Owned.setModel {model : Option DistributedGroup}
    (h : self.Owned (model.toList ++ self.references)) : (self.setModel model).Formed := by
  have hmoved : ({ self with model := model } : RingHost).Owned
      (self.model.toList ++ ({ self with model := model } : RingHost).references) := by
    refine (h.congr fun o => ?_).of_frame rfl rfl
    simp only [references, List.mem_append]
    tauto
  exact hmoved.releaseAny

/-- What somebody refers to can be taken by somebody else. -/
theorem Formed.owned_append (h : self.Formed) {objects : List DistributedGroup}
    (hobjects : ∀ o ∈ objects, o ∈ self.references) : self.Owned (objects ++ self.references) :=
  h.congr fun o => by
    rw [List.mem_append]
    exact ⟨fun ho => ho.elim (hobjects o) id, .inr⟩

/-- One more object, with its handle if it has one. -/
theorem Formed.grow (h : self.Formed) {process : Process} (wrapped : Option GroupImpl)
    (hsolo : Solo process) (hhandles : process.handles.Perm
      (wrapped.toList ++ self.process.handles)) :
    ({ self with process := process, wraps := self.wraps ++ [wrapped] } : RingHost).Owned
      (self.wraps.length :: self.references) := by
  have hnew : self.wraps.length ∉ self.references := fun hmem => lt_irrefl _ (h.made _ hmem)
  refine ⟨hsolo, ?_, ?_⟩
  · intro o ho
    show o < (self.wraps ++ [wrapped]).length
    rw [List.length_append, List.length_singleton]
    rcases List.mem_cons.mp ho with rfl | ho
    · exact Nat.lt_succ_self _
    · exact Nat.lt_succ_of_lt (h.made o ho)
  · -- the objects that were there wrap what they wrapped
    have hold : ∀ o ∈ self.references.dedup,
        ({ self with process := process, wraps := self.wraps ++ [wrapped] } : RingHost).impl o
          = self.impl o := by
      intro o ho
      have hlt := h.made o (List.mem_dedup.mp ho)
      show ((self.wraps ++ [wrapped])[o]?).join = (self.wraps[o]?).join
      rw [List.getElem?_append_left hlt]
    have hlast : ({ self with process := process, wraps := self.wraps ++ [wrapped] } :
        RingHost).impl self.wraps.length = wrapped := by
      show ((self.wraps ++ [wrapped])[self.wraps.length]?).join = wrapped
      rw [List.getElem?_concat_length]
      rfl
    -- the new one comes in front, with its handle if it has one
    rw [List.dedup_cons_of_notMem hnew]
    refine hhandles.trans ?_
    cases wrapped with
    | none =>
      rw [List.filterMap_cons_none hlast, List.filterMap_congr hold]
      exact h.handles
    | some impl =>
      rw [List.filterMap_cons_some hlast, List.filterMap_congr hold]
      exact h.handles.cons impl

/-- `initialize` hands out the group there is, … -/
theorem initializeGroup_cached (h : self.Formed) {impl : GroupImpl}
    (hlookup : self.process.cache.lookup "any" = some impl) (backend : Option String) :
    self.initializeGroup backend = ({ self with
      process := self.process.hand impl, wraps := self.wraps ++ [some impl] },
      self.wraps.length, none) := by
  rcases h.solo.init with ⟨impl', hlookup', hinit⟩ | ⟨hcache, -⟩
  · obtain rfl := Option.some.inj (hlookup.symm.trans hlookup')
    simp only [initializeGroup, hinit]
  · rw [hcache] at hlookup
    simp at hlookup

/-- … or makes one, to which only the handle of the new object refers, … -/
theorem initializeGroup_some (h : self.Formed) (hcache : self.process.cache = ∅) (bk_ : String) :
    self.initializeGroup (some bk_) = ({ self with
      process := (self.process.build true bk_).1,
      wraps := self.wraps ++ [some self.process.made] }, self.wraps.length, none) := by
  rcases h.solo.init with ⟨impl, hlookup, -⟩ | ⟨-, -, hselected⟩
  · rw [hcache] at hlookup
    simp at hlookup
  · simp only [initializeGroup, hselected]

/-- … or fails, and then the new object holds nothing. -/
theorem initializeGroup_none (h : self.Formed) (hcache : self.process.cache = ∅) :
    self.initializeGroup none = ({ self with wraps := self.wraps ++ [none] },
      self.wraps.length, some strictFailure) := by
  rcases h.solo.init with ⟨impl, hlookup, -⟩ | ⟨-, hthrows, -⟩
  · rw [hcache] at hlookup
    simp at hlookup
  · simp only [initializeGroup, hthrows]

/-- `initMLX` keeps the process formed, whether it makes a group, finds the cached one, or
    throws. -/
theorem Formed.initMLX (h : self.Formed) (hostfile backend : Option String) :
    (self.initMLX hostfile backend).1.Formed := by
  cases hostfile with
  | some message => exact h
  | none =>
    show ((self.initializeGroup backend).1.setGroup
      (some (self.initializeGroup backend).2.1)).Formed
    cases hlookup : self.process.cache.lookup "any" with
    | some impl =>
      have hmem : impl ∈ self.process.cached := Dictionary.mem_values.mpr ⟨"any", hlookup⟩
      rw [initializeGroup_cached h hlookup]
      exact Owned.setGroup (h.grow (some impl) (h.solo.hand hmem) (.refl _))
    | none =>
      have hcache := h.solo.cache_eq_empty hlookup
      cases backend with
      | none =>
        rw [initializeGroup_none h hcache]
        exact Owned.setGroup (h.grow none h.solo (.refl _))
      | some bk_ =>
        obtain ⟨hsolo, hhandles⟩ := h.solo.build hcache bk_
        rw [initializeGroup_some h hcache]
        exact Owned.setGroup (h.grow (some _) hsolo (.of_eq hhandles))

/-- Giving up the manager's reference keeps the process formed. -/
theorem Formed.setGroup_none (h : self.Formed) : (self.setGroup none).Formed :=
  Owned.setGroup (h.owned_append (by simp))

/-- The manager takes a group; the model and the tasks keep what they hold. -/
theorem setGroup_frame (self : RingHost) (group : Option DistributedGroup) :
    (self.setGroup group).process.cache = self.process.cache ∧
    (self.setGroup group).process.made = self.process.made ∧
    (self.setGroup group).wraps = self.wraps ∧ (self.setGroup group).group = group ∧
    (self.setGroup group).model = self.model ∧ (self.setGroup group).tasks = self.tasks := by
  unfold setGroup releaseAny
  split
  · exact release_frame ..
  · exact ⟨rfl, rfl, rfl, rfl, rfl, rfl⟩

/-- Somebody besides `MLXManager` holds a group: the loaded model or a task that still runs. -/
def Held (self : RingHost) : Prop :=
  ∃ object ∈ self.model.toList ++ self.tasks, self.impl object ≠ none

/-- With the manager's group given up, the library has handles exactly if somebody holds one. -/
theorem Formed.handles_iff (h : self.Formed) (hgroup : self.group = none) :
    self.process.handles ≠ [] ↔ self.Held := by
  have hreferences : self.references = self.model.toList ++ self.tasks := by
    rw [references, hgroup]
    rfl
  have hlength := h.handles.length_eq
  rw [hreferences] at hlength
  rw [← List.length_pos_iff, hlength, List.length_pos_iff]
  constructor
  · intro hne
    obtain ⟨impl, hmem⟩ := List.exists_mem_of_ne_nil _ hne
    obtain ⟨object, hobject, himpl⟩ := List.mem_filterMap.mp hmem
    exact ⟨object, List.mem_dedup.mp hobject, by simp [himpl]⟩
  · rintro ⟨object, hobject, himpl⟩
    obtain ⟨impl, himpl⟩ := Option.ne_none_iff_exists'.mp himpl
    exact List.ne_nil_of_mem (List.mem_filterMap.mpr ⟨object, List.mem_dedup.mpr hobject, himpl⟩)

/-- **`teardown`** fails if somebody else holds a group, and leaves no group otherwise. -/
theorem Formed.teardown (h : self.Formed) :
    (self.Held ∧ self.teardown true = (self.setGroup none, .error .handlesOutlivedTeardown)) ∨
    (¬ self.Held ∧ (self.teardown true).2 = .ok () ∧ (self.teardown true).1.Formed ∧
      (self.teardown true).1.process.cache = ∅ ∧
      (self.teardown true).1.process.made = self.process.made) := by
  obtain ⟨hcache, hmade, hwraps, hgroup, hmodel, htasks⟩ := setGroup_frame self none
  have hformed := h.setGroup_none
  have hheld : (self.setGroup none).Held ↔ self.Held := by
    simp only [Held, impl, hmodel, htasks, hwraps]
  have hiff := (hformed.handles_iff hgroup).trans hheld
  unfold RingHost.teardown
  generalize self.setGroup none = dropped at *
  rcases hformed.solo.finalize with ⟨hnil, htrue, hempty, hhandles, hmade', hsolo⟩ | ⟨hne, heq⟩
  · refine .inr ⟨fun hyes => hiff.mpr hyes hnil, ?_⟩
    dsimp only
    rw [if_pos rfl]
    generalize hfinalized : dropped.process.finalize = finalized at *
    obtain ⟨process, released⟩ := finalized
    obtain rfl : released = true := htrue
    refine ⟨rfl, ⟨hsolo, hformed.made, ?_⟩, hempty, hmade'.trans hmade⟩
    show process.handles.Perm _
    have hnone := hformed.handles
    rw [hnil] at hnone
    rw [hhandles]
    exact hnone
  · refine .inl ⟨hiff.mp hne, ?_⟩
    dsimp only
    rw [if_pos rfl, heq]

/-! ### Re-formation -/

/-- A group that has been made and not been destroyed. -/
def Alive (self : RingHost) (impl : GroupImpl) : Prop := App.Alive self.process impl

/-- The groups that are alive are what the library has in its cache. -/
theorem Formed.alive_iff (h : self.Formed) (impl : GroupImpl) :
    self.Alive impl ↔ self.process.cache.lookup "any" = some impl := by
  rw [Alive, h.solo.alive_iff]
  exact ⟨h.solo.any impl, fun hlookup => Dictionary.mem_values.mpr ⟨"any", hlookup⟩⟩

/-- **What the groups of the app promise** in one state. -/
structure ReformLaw (h : RingHost) : Prop where
  /-- there are never two rings … -/
  one_alive : ∀ impl impl', h.Alive impl → h.Alive impl' → impl = impl'
  /-- … since an `initMLX` alone gives the group that is there, host file or not -/
  reused : ∀ impl backend, h.Alive impl → (h.initMLX none backend).2 = .ok () ∧
    ∃ object, (h.initMLX none backend).1.group = some object ∧
      (h.initMLX none backend).1.impl object = some impl
  /-- who still holds a group keeps it, and the re-formation fails -/
  refused : ∀ hostfile backend, h.Held →
    (h.reform true hostfile backend).2 = .error .handlesOutlivedTeardown ∧
    (h.reform true hostfile backend).1.group = none ∧
    ∀ impl, (h.reform true hostfile backend).1.Alive impl ↔ h.Alive impl
  /-- otherwise there is one group afterwards, which has never been there before … -/
  rebuilt : ∀ bk_, ¬ h.Held → (h.reform true none (some bk_)).2 = .ok () ∧
    ∃ object impl, (h.reform true none (some bk_)).1.group = some object ∧
      (h.reform true none (some bk_)).1.impl object = some impl ∧ h.process.made ≤ impl ∧
      ∀ impl', (h.reform true none (some bk_)).1.Alive impl' ↔ impl' = impl
  /-- … or none at all, if it cannot be made -/
  failed : ∀ hostfile backend, ¬ h.Held → hostfile ≠ none ∨ backend = none →
    (∃ message, (h.reform true hostfile backend).2 = .error (.failed message)) ∧
    ∀ impl, ¬ (h.reform true hostfile backend).1.Alive impl
  /-- nobody else holds one once the model is released, unless a task still does -/
  released : (∀ object ∈ h.tasks, h.impl object = none) → ¬ h.releaseModelForReformation.Held

/-- After a teardown nothing is alive: no cache entry and no handle refers to a group. -/
theorem Formed.not_alive (h : self.Formed) (hcache : self.process.cache = ∅) (impl : GroupImpl) :
    ¬ self.Alive impl := by
  rw [h.alive_iff, hcache]
  simp

/-- What `initMLX` gives if `initialize` works: the manager holds the object of the new group. -/
theorem initMLX_of_initializeGroup {backend : Option String} {process : Process}
    {impl : GroupImpl} (heq : self.initializeGroup backend = ({ self with
      process := process, wraps := self.wraps ++ [some impl] }, self.wraps.length, none)) :
    (self.initMLX none backend).2 = .ok () ∧ ∃ object,
      (self.initMLX none backend).1.group = some object ∧
      (self.initMLX none backend).1.impl object = some impl ∧
      (self.initMLX none backend).1.process.cache = process.cache := by
  unfold RingHost.initMLX
  rw [heq]
  obtain ⟨hcache, -, hwraps, hgroup, -⟩ := setGroup_frame ({ self with
    process := process, wraps := self.wraps ++ [some impl] } : RingHost) (some self.wraps.length)
  refine ⟨rfl, self.wraps.length, hgroup, ?_, hcache⟩
  dsimp only
  rw [RingHost.impl, hwraps, List.getElem?_concat_length]
  rfl

/-- With a group alive, `initMLX` without a host file gives the manager a further handle of the same
    group. -/
theorem Formed.reused (h : self.Formed) {impl : GroupImpl} (halive : self.Alive impl)
    (backend : Option String) : (self.initMLX none backend).2 = .ok () ∧
    ∃ object, (self.initMLX none backend).1.group = some object ∧
      (self.initMLX none backend).1.impl object = some impl := by
  rw [h.alive_iff] at halive
  obtain ⟨hok, object, hgroup, himpl, -⟩ :=
    initMLX_of_initializeGroup (initializeGroup_cached h halive backend)
  exact ⟨hok, object, hgroup, himpl⟩

/-- A re-formation with a handle still held is refused, and every group that was alive still is. -/
theorem Formed.refused (h : self.Formed) (hheld : self.Held) (hostfile backend : Option String) :
    (self.reform true hostfile backend).2 = .error .handlesOutlivedTeardown ∧
    (self.reform true hostfile backend).1.group = none ∧
    ∀ impl, (self.reform true hostfile backend).1.Alive impl ↔ self.Alive impl := by
  obtain ⟨-, heq⟩ | ⟨hfree, -⟩ := h.teardown
  · obtain ⟨hcache, -, -, hgroup, -⟩ := setGroup_frame self none
    unfold reform
    rw [heq]
    refine ⟨rfl, hgroup, fun impl => ?_⟩
    rw [h.setGroup_none.alive_iff, h.alive_iff, hcache]
  · exact absurd hheld hfree

/-- A re-formation that is not refused initialises the ring on an empty table. -/
theorem Formed.reform_eq (h : self.Formed) (hfree : ¬ self.Held) :
    ∃ torn : RingHost, torn.Formed ∧ torn.process.cache = ∅ ∧
      torn.process.made = self.process.made ∧
      ∀ hostfile backend, self.reform true hostfile backend = torn.initMLX hostfile backend := by
  obtain ⟨hheld, -⟩ | ⟨-, hok, hformed, hcache, hmade⟩ := h.teardown
  · exact absurd hheld hfree
  · refine ⟨_, hformed, hcache, hmade, fun hostfile backend => ?_⟩
    unfold reform
    generalize self.teardown true = torn at hok
    obtain ⟨torn, result⟩ := torn
    obtain rfl : result = .ok () := hok
    rfl

/-- A re-formation with no handle held makes a group that never was before, and no other is
    alive. -/
theorem Formed.rebuilt (h : self.Formed) (hfree : ¬ self.Held) (bk_ : String) :
    (self.reform true none (some bk_)).2 = .ok () ∧
    ∃ object impl, (self.reform true none (some bk_)).1.group = some object ∧
      (self.reform true none (some bk_)).1.impl object = some impl ∧ self.process.made ≤ impl ∧
      ∀ impl', (self.reform true none (some bk_)).1.Alive impl' ↔ impl' = impl := by
  obtain ⟨torn, hformed, hcache, hmade, heq⟩ := h.reform_eq hfree
  obtain ⟨hsolo, hhandles⟩ := hformed.solo.build hcache bk_
  obtain ⟨hok, object, hgroup, himpl, hcache'⟩ :=
    initMLX_of_initializeGroup (initializeGroup_some hformed hcache bk_)
  rw [heq]
  refine ⟨hok, object, torn.process.made, hgroup, himpl, hmade.ge, fun impl' => ?_⟩
  have hmem : torn.process.made ∈ (torn.process.build true bk_).1.handles :=
    hhandles ▸ List.mem_cons_self ..
  rw [(hformed.initMLX none (some bk_)).alive_iff, hcache', hsolo.any _ (hsolo.handles _ hmem)]
  exact ⟨fun hsome => (Option.some.inj hsome).symm, fun himpl' => congrArg some himpl'.symm⟩

/-- A re-formation for which no group can be made throws, and leaves no group alive. -/
theorem Formed.failed (h : self.Formed) (hfree : ¬ self.Held) {hostfile backend : Option String}
    (hfails : hostfile ≠ none ∨ backend = none) :
    (∃ message, (self.reform true hostfile backend).2 = .error (.failed message)) ∧
    ∀ impl, ¬ (self.reform true hostfile backend).1.Alive impl := by
  obtain ⟨torn, hformed, hcache, -, heq⟩ := h.reform_eq hfree
  rw [heq]
  have hafter := hformed.initMLX hostfile backend
  cases hostfile with
  | some message => exact ⟨⟨message, rfl⟩, hformed.not_alive hcache⟩
  | none =>
    obtain rfl : backend = none := hfails.resolve_left fun hne => hne rfl
    have hresult : torn.initMLX none none = (({ torn with wraps := torn.wraps ++ [none] } :
        RingHost).setGroup (some torn.wraps.length), .error (.failed strictFailure)) := by
      unfold RingHost.initMLX
      rw [initializeGroup_none hformed hcache]
    obtain ⟨hsame, -⟩ := setGroup_frame ({ torn with wraps := torn.wraps ++ [none] } : RingHost)
      (some torn.wraps.length)
    refine ⟨⟨strictFailure, by rw [hresult]⟩, hafter.not_alive ?_⟩
    rw [hresult, hsame]
    exact hcache

/-- Releasing the model leaves the tasks, so nobody holds a group if none of them does. -/
theorem not_held_releaseModel (htasks : ∀ object ∈ self.tasks, self.impl object = none) :
    ¬ self.releaseModelForReformation.Held := by
  have hframe : self.releaseModelForReformation.model = none ∧
      self.releaseModelForReformation.tasks = self.tasks ∧
      self.releaseModelForReformation.wraps = self.wraps := by
    unfold releaseModelForReformation setModel releaseAny
    split
    · obtain ⟨-, -, hwraps, -, hmodel, htasks⟩ := release_frame { self with model := none } _
      exact ⟨hmodel, htasks, hwraps⟩
    · exact ⟨rfl, rfl, rfl⟩
  obtain ⟨hmodel, hkept, hwraps⟩ := hframe
  rintro ⟨object, hobject, himpl⟩
  rw [hmodel, hkept] at hobject
  refine himpl ?_
  rw [impl, hwraps]
  exact htasks object hobject

/-- In a formed process the law of re-formation holds, by the cases of who holds the old group. -/
theorem ReformLaw.of_formed (h : self.Formed) : self.ReformLaw where
  one_alive impl impl' himpl himpl' := by
    rw [h.alive_iff] at himpl himpl'
    exact Option.some.inj (himpl.symm.trans himpl')
  reused _ backend halive := h.reused halive backend
  refused hostfile backend hheld := h.refused hheld hostfile backend
  rebuilt bk_ hfree := h.rebuilt hfree bk_
  failed _ _ hfree hfails := h.failed hfree hfails
  released := not_held_releaseModel

/-- **Step lemma.**  Every call keeps the process well formed, whether it succeeds or fails. -/
theorem Formed.perform (h : self.Formed) (call : Call) : (self.perform call).1.Formed := by
  have htasks : ∀ object ∈ self.tasks, object ∈ self.references := fun object hobject =>
    List.mem_append_right _ (List.mem_append_right _ hobject)
  cases call with
  | initMLX hostfile backend => exact h.initMLX hostfile backend
  | teardown canReform =>
    cases canReform with
    | false => exact h.setGroup_none
    | true =>
      obtain ⟨-, heq⟩ | ⟨-, -, hformed, -⟩ := h.teardown
      · show (self.teardown true).1.Formed
        rw [heq]
        exact h.setGroup_none
      · exact hformed
  | reform canReform hostfile backend =>
    cases canReform with
    | false => exact h.setGroup_none
    | true =>
      show (self.reform true hostfile backend).1.Formed
      by_cases hheld : self.Held
      · obtain ⟨-, heq⟩ | ⟨hfree, -⟩ := h.teardown
        · unfold reform
          rw [heq]
          exact h.setGroup_none
        · exact absurd hheld hfree
      · obtain ⟨torn, hformed, -, -, heq⟩ := h.reform_eq hheld
        rw [heq]
        exact hformed.initMLX hostfile backend
  | wrapLayers =>
    refine (h.congr fun o => ?_).of_frame rfl rfl
    simp only [RingHost.perform, wrapLayers, references, List.mem_append]
    tauto
  | finishLoad i =>
    refine Owned.setModel (h.owned_append fun object hobject => htasks object ?_)
    obtain ⟨k, -, hk⟩ := Option.bind_eq_some_iff.mp (Option.mem_toList.mp hobject)
    exact List.mem_of_getElem? hk
  | releaseModelForReformation => exact Owned.setModel (h.owned_append (by simp))
  | startTask =>
    refine (h.congr fun o => ?_).of_frame rfl rfl
    simp only [RingHost.perform, startTask, references, List.mem_append]
    tauto
  | endTask i =>
    refine Owned.releaseAny ((h.congr fun o => ?_).of_frame rfl rfl)
    -- the task at `i` and the others are the tasks
    have hmem : o ∈ self.tasks ↔ o ∈ self.tasks[i]?.toList ++ self.tasks.eraseIdx i := by
      by_cases hi : i < self.tasks.length
      · rw [List.getElem?_eq_getElem hi]
        exact (List.getElem_cons_eraseIdx_perm hi).mem_iff.symm
      · rw [List.getElem?_eq_none (by omega), List.eraseIdx_of_length_le (by omega)]
        simp
    simp only [references, List.mem_append] at hmem ⊢
    tauto

/-- **Re-forming the ring.**  After every history of initialisations, teardowns, re-formations,
    loads and generations, in any order and whatever fails. -/
theorem reform_law (calls : List Call) : (machine.exec start calls).ReformLaw :=
  .of_formed (machine.invariant (I := Formed) .start (fun _ call h => h.perform call) calls)

/-- A generation that still runs makes the re-formation fail; when it has ended, the new group is
    the second one that was made. -/
example :
    let loaded : List Call := [.initMLX none (some "ring"), .wrapLayers, .finishLoad (some 0),
      .endTask 0, .startTask, .releaseModelForReformation]
    ((machine.step (machine.exec start loaded) (.reform true none (some "ring"))).2,
      (machine.exec start (loaded ++ [.endTask 0, .reform true none (some "ring")])).group.bind
        (machine.exec start (loaded ++ [.endTask 0, .reform true none (some "ring")])).impl)
    = (.error .handlesOutlivedTeardown, some 1) := by decide +kernel

end RingHost

end ShareCompute.App
