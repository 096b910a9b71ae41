import Mathlib.Data.List.Nodup

namespace ShareCompute.Library.OrderedDict

/-!
# Dictionaries that keep the order of insertion

A dictionary as the list of its pairs, in the order in which the keys came.  `List.lookup` reads
it and `assign` writes it; a key that is there keeps its place.  `push` adds to a list in it.

* `lookup_assign`, `keys_assign` — reading behind a write, and what a write does to the keys.
* `lookup_foldl_assign` — writing the pairs of another dictionary, one behind the other.
* `exists_mapM`, `mapM_eq_none` — a loop that never stops early, and one that does.
* `mapM_lookup`, `anyM_lookup` — loops over one dictionary that read another one with the same
  keys.
* `perm_map_lookup` — together they read all its values.
-/

variable {κ ν ε : Type} [DecidableEq κ] [BEq κ] [LawfulBEq κ]

/-- The assignment `d[k] = v`, which keeps the place of a key that is there. -/
def assign (k : κ) (v : ν) : List (κ × ν) → List (κ × ν)
  | [] => [(k, v)]
  | entry :: d => if k = entry.1 then (k, v) :: d else entry :: assign k v d

/-- The call `d.setdefault(k, []).append(v)`, which lengthens the list of a key. -/
def push (k : κ) (v : ν) (d : List (κ × List ν)) : List (κ × List ν) :=
  assign k ((d.lookup k).getD [] ++ [v]) d

/-- The first entry of a key is the one that is found. -/
theorem lookup_cons (entry : κ × ν) (d : List (κ × ν)) (k : κ) :
    (entry :: d).lookup k = if k = entry.1 then some entry.2 else d.lookup k := by
  rw [List.lookup_cons]
  split
  case h_1 heq => rw [if_pos (beq_iff_eq.mp heq)]
  case h_2 hne => rw [if_neg (beq_eq_false_iff_ne.mp hne)]

/-- What was assigned is found under its key, and elsewhere what was found before. -/
theorem lookup_assign (k : κ) (v : ν) (d : List (κ × ν)) (k' : κ) :
    (assign k v d).lookup k' = if k' = k then some v else d.lookup k' := by
  induction d with
  | nil => exact lookup_cons (k, v) [] k'
  | cons entry d ih =>
    rw [assign]
    split
    case isTrue heq =>
      rw [lookup_cons, lookup_cons, ← heq]
      split <;> rfl
    case isFalse hne =>
      rw [lookup_cons, lookup_cons, ih]
      by_cases hentry : k' = entry.1
      · have hk : k' ≠ k := fun h => hne (h.symm.trans hentry)
        rw [if_pos hentry, if_neg hk, if_pos hentry]
      · rw [if_neg hentry, if_neg hentry]

/-- A key that is assigned keeps its place, or comes last if it is new. -/
theorem keys_assign (k : κ) (v : ν) (d : List (κ × ν)) :
    (assign k v d).map Prod.fst
      = if k ∈ d.map Prod.fst then d.map Prod.fst else d.map Prod.fst ++ [k] := by
  induction d with
  | nil => rfl
  | cons entry d ih =>
    rw [assign]
    split
    case isTrue heq => simp [heq]
    case isFalse hne =>
      rw [List.map_cons, ih, List.map_cons]
      simp only [List.mem_cons, hne, false_or]
      split <;> rfl

/-- Assigning makes no key occur twice, since it replaces the entry that is there. -/
theorem nodup_assign {d : List (κ × ν)} (h : (d.map Prod.fst).Nodup) (k : κ) (v : ν) :
    ((assign k v d).map Prod.fst).Nodup := by
  rw [keys_assign]
  split
  case isTrue => exact h
  case isFalse hk => exact List.nodup_append_comm.mp (List.nodup_cons.mpr ⟨hk, h⟩)

/-- Grouping values by their keys: the keys of the groups. -/
theorem mem_keys_push {d : List (κ × List ν)} {k k' : κ} {v : ν} :
    k' ∈ (push k v d).map Prod.fst ↔ k' ∈ d.map Prod.fst ∨ k' = k := by
  rw [push, keys_assign]
  split
  case isTrue hk =>
    constructor
    · exact Or.inl
    · rintro (h | rfl)
      · exact h
      · exact hk
  case isFalse => rw [List.mem_append, List.mem_singleton]

/-- Something is found under a key exactly if it is one of the keys. -/
theorem lookup_isSome_iff {d : List (κ × ν)} {k : κ} :
    (d.lookup k).isSome = true ↔ k ∈ d.map Prod.fst := by
  induction d with
  | nil => simp
  | cons entry d ih =>
    rw [lookup_cons, List.map_cons, List.mem_cons, ← ih]
    split
    case isTrue hk => simp [hk]
    case isFalse hk => simp [hk]

/-- What is found is one of the entries. -/
theorem mem_of_lookup {d : List (κ × ν)} {k : κ} {v : ν} (h : d.lookup k = some v) :
    (k, v) ∈ d := by
  induction d with
  | nil => cases h
  | cons entry d ih =>
    rw [lookup_cons] at h
    split at h
    case isTrue hk =>
      rw [hk, ← Option.some.inj h]
      exact List.mem_cons_self
    case isFalse hk => exact List.mem_cons_of_mem _ (ih h)

/-- Where no key occurs twice, every entry is found under its key. -/
theorem lookup_of_mem {d : List (κ × ν)} (h : (d.map Prod.fst).Nodup) {k : κ} {v : ν}
    (hmem : (k, v) ∈ d) : d.lookup k = some v := by
  obtain ⟨v', hv'⟩ := Option.isSome_iff_exists.mp
    (lookup_isSome_iff.mpr (List.mem_map_of_mem (f := Prod.fst) hmem))
  have heq := List.inj_on_of_nodup_map h (mem_of_lookup hv') hmem rfl
  rw [hv', (Prod.mk.inj heq).2]

/-- The pairs of `e`, written into `d`. -/
theorem lookup_foldl_assign {e : List (κ × ν)} (h : (e.map Prod.fst).Nodup) (d : List (κ × ν))
    (k : κ) :
    (e.foldl (fun d entry => assign entry.1 entry.2 d) d).lookup k
      = (e.lookup k).or (d.lookup k) := by
  induction e generalizing d with
  | nil => rfl
  | cons entry e ih =>
    rw [List.map_cons, List.nodup_cons] at h
    rw [List.foldl_cons, ih h.2, lookup_assign, lookup_cons]
    by_cases hk : k = entry.1
    · have hnone : e.lookup k = none := by
        rw [← Option.not_isSome_iff_eq_none, lookup_isSome_iff, hk]
        exact h.1
      rw [hnone, if_pos hk, if_pos hk]
      rfl
    · rw [if_neg hk, if_neg hk]

omit [BEq κ] [LawfulBEq κ] in
/-- A new key goes to the end. -/
theorem assign_of_not_mem {d : List (κ × ν)} {k : κ} (h : k ∉ d.map Prod.fst) (v : ν) :
    assign k v d = d ++ [(k, v)] := by
  induction d with
  | nil => rfl
  | cons entry d ih =>
    rw [List.map_cons, List.mem_cons, not_or] at h
    rw [assign, if_neg h.1, ih h.2, List.cons_append]

omit [BEq κ] [LawfulBEq κ] in
/-- A dictionary is what its pairs make, written one behind the other. -/
theorem foldl_assign_append {d e : List (κ × ν)} (h : ((d ++ e).map Prod.fst).Nodup) :
    e.foldl (fun d entry => assign entry.1 entry.2 d) d = d ++ e := by
  induction e generalizing d with
  | nil => rw [List.foldl_nil, List.append_nil]
  | cons entry e ih =>
    have hnew : entry.1 ∉ d.map Prod.fst := by
      rw [List.map_append, List.map_cons, List.nodup_append] at h
      exact fun hmem => h.2.2 _ hmem _ List.mem_cons_self rfl
    have hsplit : d ++ entry :: e = (d ++ [entry]) ++ e := by simp
    rw [List.foldl_cons, assign_of_not_mem hnew, hsplit]
    exact ih (hsplit ▸ h)

/-! ### Loops -/

omit [DecidableEq κ] [BEq κ] [LawfulBEq κ] in
/-- A loop of which every iteration has a result. -/
theorem exists_mapM {f : κ → Option ν} {P : κ → ν → Prop} {l : List κ}
    (h : ∀ a ∈ l, ∃ b, f a = some b ∧ P a b) : ∃ bs, l.mapM f = some bs ∧ List.Forall₂ P l bs := by
  induction l with
  | nil => exact ⟨[], rfl, .nil⟩
  | cons a l ih =>
    rw [List.forall_mem_cons] at h
    obtain ⟨b, hb, hab⟩ := h.1
    obtain ⟨bs, hbs, hall⟩ := ih h.2
    exact ⟨b :: bs, by rw [List.mapM_cons, hb, hbs]; rfl, .cons hab hall⟩

omit [DecidableEq κ] [BEq κ] [LawfulBEq κ] in
/-- A loop of which an iteration has no result. -/
theorem mapM_eq_none {f : κ → Option ν} {l : List κ} {a : κ} (hmem : a ∈ l) (h : f a = none) :
    l.mapM f = none := by
  induction l with
  | nil => exact absurd hmem List.not_mem_nil
  | cons b l ih =>
    rw [List.mapM_cons]
    rcases List.mem_cons.mp hmem with rfl | hmem
    · rw [h]
      rfl
    · rw [ih hmem]
      cases f b <;> rfl

/-- A loop over the pairs of one dictionary that reads another one, which has their keys. -/
theorem mapM_lookup {d e : List (κ × ν)} (h : ∀ k ∈ d.map Prod.fst, k ∈ e.map Prod.fst)
    (default : ν) (f : κ × ν → ν → ε) :
    d.mapM (fun entry => (e.lookup entry.1).map (f entry))
      = some (d.map (fun entry => f entry ((e.lookup entry.1).getD default))) := by
  induction d with
  | nil => rfl
  | cons entry d ih =>
    rw [List.map_cons, List.forall_mem_cons] at h
    obtain ⟨v, hv⟩ := Option.isSome_iff_exists.mp (lookup_isSome_iff.mpr h.1)
    rw [List.mapM_cons, ih h.2, hv]
    simp [hv]

/-- The same for a loop that stops at the first pair of which `p` holds. -/
theorem anyM_lookup {d e : List (κ × ν)} (h : ∀ k ∈ d.map Prod.fst, k ∈ e.map Prod.fst)
    (default : ν) (p : κ × ν → ν → Bool) :
    d.anyM (fun entry => (e.lookup entry.1).map (p entry))
      = some (d.any (fun entry => p entry ((e.lookup entry.1).getD default))) := by
  induction d with
  | nil => rfl
  | cons entry d ih =>
    rw [List.map_cons, List.forall_mem_cons] at h
    obtain ⟨v, hv⟩ := Option.isSome_iff_exists.mp (lookup_isSome_iff.mpr h.1)
    rw [List.anyM, hv, List.any_cons, ih h.2]
    cases hp : p entry v <;> simp [hv, hp]

/-- Reading `e` at the keys of `d` gives the values of `e`, where the keys are the same. -/
theorem perm_map_lookup {d e : List (κ × ν)} (he : (e.map Prod.fst).Nodup)
    (h : (d.map Prod.fst).Perm (e.map Prod.fst)) (default : ν) :
    (d.map (fun entry => (e.lookup entry.1).getD default)).Perm (e.map Prod.snd) := by
  have hmap : ∀ d : List (κ × ν), d.map (fun entry => (e.lookup entry.1).getD default)
      = (d.map Prod.fst).map (fun k => (e.lookup k).getD default) := by
    intro d
    rw [List.map_map]
    rfl
  have hself : e.map (fun entry => (e.lookup entry.1).getD default) = e.map Prod.snd :=
    List.map_congr_left fun entry hentry => by rw [lookup_of_mem he hentry]; rfl
  rw [hmap, ← hself, hmap e]
  exact h.map _

end ShareCompute.Library.OrderedDict
