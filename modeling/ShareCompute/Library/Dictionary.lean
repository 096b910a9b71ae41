import Mathlib.Data.List.AList
import Mathlib.Data.List.Induction
import Mathlib.Data.List.Sort
import Mathlib.Data.List.Nodup

namespace ShareCompute.Library

/-!
# Finite dictionaries and loops over their keys

A dictionary is Mathlib's `AList`, an association list without repeated keys, at a
constant value type.  Four things are added to it here:

* `Dictionary.sortedKeys` — the keys in increasing order, the order in which programs
  that must be deterministic walk a hash table;
* `Dictionary.pairwise_lt_map_insertionSort` — what sorting by a key does to distinct keys;
* `Dictionary.file` — the dictionary of a list of values, each under its own key;
* `Dictionary.sweep` — the loop "for each of these keys, look at its value and possibly
  replace it and report something".  Every iteration reads and writes its own key only,
  so the loop is described key by key: `lookup_sweep` for the table it leaves behind and
  `sweep_reports` for what it reports.
-/

/-- A finite dictionary from keys `κ` to values `ν`. -/
abbrev Dictionary (κ ν : Type) := AList (fun _ : κ => ν)

namespace Dictionary

variable {κ ν ε : Type} [LinearOrder κ]

/-! ### Keys and values -/

/-- The keys in increasing order, each of them once. -/
def sortedKeys (d : Dictionary κ ν) : List κ := d.keys.insertionSort (· ≤ ·)

/-- The sorted keys are the keys of the dictionary. -/
@[simp] theorem mem_sortedKeys {d : Dictionary κ ν} {k : κ} : k ∈ sortedKeys d ↔ k ∈ d := by
  rw [sortedKeys, (List.perm_insertionSort _ _).mem_iff, AList.mem_keys]

/-- No key is listed twice, since none is in the dictionary twice. -/
theorem nodup_sortedKeys (d : Dictionary κ ν) : (sortedKeys d).Nodup :=
  (List.perm_insertionSort _ _).nodup_iff.mpr d.keys_nodup

/-- Sorting by a key that no two elements share puts the keys in strictly increasing order. -/
theorem pairwise_lt_map_insertionSort {α : Type} (key : α → κ) {xs : List α}
    (hxs : (xs.map key).Nodup) :
    ((xs.insertionSort (fun a b => key a ≤ key b)).map key).Pairwise (· < ·) := by
  have hle : ((xs.insertionSort (fun a b => key a ≤ key b)).map key).Pairwise (· ≤ ·) := by
    rw [List.pairwise_map]
    exact List.pairwise_insertionSort (fun a b : α => key a ≤ key b) _
  have hnodup : ((xs.insertionSort (fun a b => key a ≤ key b)).map key).Nodup :=
    ((List.perm_insertionSort _ xs).map key).nodup_iff.mpr hxs
  exact hle.imp₂ (fun _ _ hab hne => lt_of_le_of_ne hab hne) hnodup

/-- Sorting by such a key forgets the order of the list. -/
theorem insertionSort_eq_of_perm {α : Type} (key : α → κ) {xs ys : List α} (hperm : xs.Perm ys)
    (hxs : (xs.map key).Nodup) :
    xs.insertionSort (fun a b => key a ≤ key b) = ys.insertionSort (fun a b => key a ≤ key b) := by
  have hsorted : ∀ zs : List α,
      (zs.insertionSort (fun a b => key a ≤ key b)).Pairwise (fun a b => key a ≤ key b) :=
    fun zs => List.pairwise_insertionSort (fun a b : α => key a ≤ key b) zs
  refine List.Perm.eq_of_pairwise ?_ (hsorted xs) (hsorted ys) ?_
  · intro a b ha hb hab hba
    have ha' : a ∈ xs := (List.mem_insertionSort _).mp ha
    have hb' : b ∈ xs := hperm.mem_iff.mpr ((List.mem_insertionSort _).mp hb)
    exact List.inj_on_of_nodup_map hxs ha' hb' (le_antisymm hab hba)
  · exact (List.perm_insertionSort _ xs).trans (hperm.trans (List.perm_insertionSort _ ys).symm)

/-- The values, in the dictionary's own order. -/
def values (d : Dictionary κ ν) : List ν := d.entries.map Sigma.snd

omit [LinearOrder κ] in
/-- A value is listed exactly if it is found under some key. -/
theorem mem_values [DecidableEq κ] {d : Dictionary κ ν} {v : ν} :
    v ∈ values d ↔ ∃ k, d.lookup k = some v := by
  simp only [values, List.mem_map, ← Option.mem_def, AList.mem_lookup_iff]
  constructor
  · rintro ⟨⟨k, v'⟩, hmem, rfl⟩
    exact ⟨k, hmem⟩
  · rintro ⟨k, hmem⟩
    exact ⟨⟨k, v⟩, hmem, rfl⟩

omit [LinearOrder κ] in
/-- When every value names the key it is filed under, reading the names off the values
    gives back the keys. -/
theorem map_values_eq_keys [DecidableEq κ] {d : Dictionary κ ν} {name : ν → κ}
    (hname : ∀ k v, d.lookup k = some v → name v = k) : (values d).map name = d.keys := by
  rw [values, List.map_map, AList.keys, List.keys]
  refine List.map_congr_left fun e he => ?_
  exact hname e.1 e.2 (Option.mem_def.mp (AList.mem_lookup_iff.mpr he))

omit [LinearOrder κ] in
/-- A new key adds its value to the values, in front of the others. -/
theorem values_insert_of_notMem [DecidableEq κ] {d : Dictionary κ ν} {k : κ} (hk : k ∉ d) (v : ν) :
    values (d.insert k v) = v :: values d := by
  rw [values, AList.entries_insert_of_notMem hk, List.map_cons]
  rfl

omit [LinearOrder κ] in
/-- An insertion adds at most one key. -/
theorem countP_keys_insert_le [DecidableEq κ] (p : κ → Bool) (d : Dictionary κ ν) (k : κ) (v : ν) :
    (d.insert k v).keys.countP p ≤ d.keys.countP p + if p k then 1 else 0 := by
  rw [AList.keys_insert, List.countP_cons]
  exact Nat.add_le_add_right List.erase_sublist.countP_le _

omit [LinearOrder κ] in
/-- Taking a key out of a dictionary leaves at most as many keys of any kind. -/
theorem countP_keys_erase_le [DecidableEq κ] (p : κ → Bool) (d : Dictionary κ ν) (k : κ) :
    (d.erase k).keys.countP p ≤ d.keys.countP p := by
  rw [AList.keys_erase]
  exact List.erase_sublist.countP_le

/-! ### Comprehensions -/

/-- The values `vs`, each under its own key; of two with the same key the later one stays. -/
def file [DecidableEq κ] (key : ν → κ) (vs : List ν) : Dictionary κ ν :=
  vs.foldl (fun d v => d.insert (key v) v) ∅

omit [LinearOrder κ] in
/-- Filing one value more inserts it under its key, over one that was there. -/
theorem file_snoc [DecidableEq κ] (key : ν → κ) (vs : List ν) (v : ν) :
    file key (vs ++ [v]) = (file key vs).insert (key v) v := by
  rw [file, List.foldl_append]
  rfl

omit [LinearOrder κ] in
/-- The keys of what was filed are the keys of the values. -/
theorem mem_file [DecidableEq κ] {key : ν → κ} {vs : List ν} {k : κ} :
    k ∈ file key vs ↔ k ∈ vs.map key := by
  induction vs using List.reverseRecOn with
  | nil => simp [file]
  | append_singleton vs v ih => simp [file_snoc, AList.mem_insert, ih, or_comm, eq_comm]

omit [LinearOrder κ] in
/-- Where no two values have the same key, each is found. -/
theorem lookup_file [DecidableEq κ] {key : ν → κ} {vs : List ν} (hnodup : (vs.map key).Nodup)
    {v : ν} (hv : v ∈ vs) : (file key vs).lookup (key v) = some v := by
  induction vs using List.reverseRecOn with
  | nil => cases hv
  | append_singleton vs w ih =>
    rw [List.map_append, List.nodup_append'] at hnodup
    obtain ⟨hbefore, -, hdisjoint⟩ := hnodup
    rw [file_snoc]
    rcases List.mem_append.mp hv with hv | hv
    · have hne : key v ≠ key w := fun heq =>
        hdisjoint (List.mem_map_of_mem hv) (by rw [heq]; exact List.mem_singleton_self _)
      rw [AList.lookup_insert_ne hne, ih hbefore hv]
    · obtain rfl := List.mem_singleton.mp hv
      exact AList.lookup_insert _

/-! ### The keyed loop -/

/-- Visit the keys `ks` in order.  At each key that is present, `f` either leaves the
    entry alone (`none`) or replaces it and reports something. -/
def sweep (f : κ → ν → Option (ν × ε)) : List κ → Dictionary κ ν → Dictionary κ ν × List ε
  | [], d => (d, [])
  | k :: ks, d =>
      match (d.lookup k).bind (f k) with
      | none => sweep f ks d
      | some (v, e) => ((sweep f ks (d.insert k v)).1, e :: (sweep f ks (d.insert k v)).2)

/-- A sweep over no keys changes nothing. -/
@[simp] theorem sweep_nil (f : κ → ν → Option (ν × ε)) (d : Dictionary κ ν) :
    sweep f [] d = (d, []) := rfl

/-- What `f` makes of the value at `k`. -/
def replaced (f : κ → ν → Option (ν × ε)) (k : κ) (v : ν) : ν := ((f k v).map Prod.fst).getD v

/-- **The table after the loop.**  Visited keys hold what `f` made of their value, the
    others are as before.  No key may be visited twice. -/
theorem lookup_sweep (f : κ → ν → Option (ν × ε)) (ks : List κ) (hks : ks.Nodup)
    (d : Dictionary κ ν) (k : κ) :
    (sweep f ks d).1.lookup k
      = if k ∈ ks then (d.lookup k).map (replaced f k) else d.lookup k := by
  induction ks generalizing d with
  | nil => simp
  | cons k₀ ks ih =>
    obtain ⟨hk₀, hks'⟩ := List.nodup_cons.mp hks
    cases hf : (d.lookup k₀).bind (f k₀) with
    | none =>
      simp only [sweep, hf, ih hks']
      by_cases hk : k = k₀
      · subst hk
        -- nothing is replaced at `k₀`, either because it is absent or because `f` declines
        cases hd : d.lookup k with
        | none => simp
        | some v =>
          have hfv : f k v = none := by simpa [hd] using hf
          simp [hk₀, replaced, hfv]
      · simp [hk]
    | some r =>
      obtain ⟨v, e⟩ := r
      simp only [sweep, hf, ih hks']
      by_cases hk : k = k₀
      · subst hk
        obtain ⟨v₀, hd, hfv⟩ := Option.bind_eq_some_iff.mp hf
        simp [hk₀, hd, replaced, hfv, AList.lookup_insert]
      · simp [hk, AList.lookup_insert_ne hk]

/-- **The reports of the loop.**  One for each visited key whose value `f` replaced, in
    the order of the visits. -/
theorem sweep_reports (f : κ → ν → Option (ν × ε)) (ks : List κ) (hks : ks.Nodup)
    (d : Dictionary κ ν) :
    (sweep f ks d).2 = ks.filterMap (fun k => ((d.lookup k).bind (f k)).map Prod.snd) := by
  induction ks generalizing d with
  | nil => simp
  | cons k₀ ks ih =>
    obtain ⟨hk₀, hks'⟩ := List.nodup_cons.mp hks
    cases hf : (d.lookup k₀).bind (f k₀) with
    | none => simp only [sweep, hf, ih hks', List.filterMap_cons, Option.map_none]
    | some r =>
      obtain ⟨v, e⟩ := r
      -- the write at `k₀` is invisible to the later iterations, which visit other keys
      have hcongr : ks.filterMap (fun k => (((d.insert k₀ v).lookup k).bind (f k)).map Prod.snd)
          = ks.filterMap (fun k => ((d.lookup k).bind (f k)).map Prod.snd) := by
        refine List.filterMap_congr fun k hk => ?_
        rw [AList.lookup_insert_ne (ne_of_mem_of_not_mem hk hk₀)]
      simp only [sweep, hf, ih hks', hcongr, List.filterMap_cons, Option.map_some]

/-- A loop over all keys maps `f` over the whole table. -/
theorem lookup_sweep_sortedKeys (f : κ → ν → Option (ν × ε)) (d : Dictionary κ ν) (k : κ) :
    (sweep f (sortedKeys d) d).1.lookup k = (d.lookup k).map (replaced f k) := by
  rw [lookup_sweep f _ (nodup_sortedKeys d)]
  by_cases hk : k ∈ d
  · simp [hk]
  · simp [hk, AList.lookup_eq_none.mpr hk]

/-- A report of a loop over all keys comes from a value `f` replaced. -/
theorem mem_sweep_reports {f : κ → ν → Option (ν × ε)} {d : Dictionary κ ν} {e : ε} :
    e ∈ (sweep f (sortedKeys d) d).2 ↔ ∃ k v v', d.lookup k = some v ∧ f k v = some (v', e) := by
  rw [sweep_reports f _ (nodup_sortedKeys d)]
  simp only [List.mem_filterMap, mem_sortedKeys, Option.map_eq_some_iff, Option.bind_eq_some_iff]
  constructor
  · rintro ⟨k, -, ⟨v', _⟩, ⟨v, hv, hfv⟩, rfl⟩
    exact ⟨k, v, v', hv, hfv⟩
  · rintro ⟨k, v, v', hv, hfv⟩
    exact ⟨k, AList.lookup_isSome.mp (by simp [hv]), (v', e), ⟨v, hv, hfv⟩, rfl⟩

end Dictionary

end ShareCompute.Library
