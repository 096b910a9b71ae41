import ShareCompute.Library.Parties
import Mathlib.Data.List.Infix

namespace ShareCompute.Library

/-!
# Ranks that exchange messages

Each of `n` ranks works through a program of its own, with one value in hand.  It can send the
value to another rank, or go on with the next one that a rank has sent to it; links lose
nothing and keep the order.  All ranks can put their values together: each contributes one, and
goes on with all of them, in the order of the ranks.

The ranks keep what they have sent and contributed, and only add to it, so they are `Parties`.
-/

namespace Ranks

variable {α : Type}

/-- What a rank can do in its program. -/
inductive Op (α : Type)
  /-- go on with the next value of the rank `source`, once it is there -/
  | recv (source : ℕ)
  | compute (f : α → α)
  | send (dest : ℕ)
  | contribute
  /-- go on with what `use` makes of the value and of everybody's contributions -/
  | collect (use : α → List α → α)
  /-- nothing more happens -/
  | trap

/-- A rank with what is left of its program, its value, and all that it has sent, received and
    contributed. -/
structure Rank (α : Type) where
  todo : List (Op α)
  value : α
  /-- by the rank it went to, the oldest first -/
  sent : ℕ → List α
  /-- by the rank it came from, the oldest first -/
  received : ℕ → List α
  contributed : List α
  /-- how often the contributions have been collected -/
  collected : ℕ

/-- A rank before its first step, with its program and its value. -/
def Rank.start (program : List (Op α)) (value : α) : Rank α where
  todo := program
  value := value
  sent := fun _ => []
  received := fun _ => []
  contributed := []
  collected := 0

/-- The `k`-th contributions of the ranks below `n`, once all of them are there. -/
def gather (ranks : ℕ → Rank α) (k : ℕ) : ℕ → Option (List α)
  | 0 => some []
  | n + 1 => do
      let parts ← gather ranks k n
      let part ← (ranks n).contributed[k]?
      return parts ++ [part]

/-- The oldest value of rank `i` to rank `j` that has not been received. -/
def oldest (ranks : ℕ → Rank α) (i j : ℕ) : Option α :=
  ((ranks i).sent j)[((ranks j).received i).length]?

/-- `log` with `value` added at the end of what it has for rank `i`. -/
def record (log : ℕ → List α) (i : ℕ) (value : α) : ℕ → List α :=
  Function.update log i (log i ++ [value])

/-- The step of rank `r`, the program of which begins with `op`. -/
def perform (n : ℕ) (ranks : ℕ → Rank α) (r : ℕ) (rest : List (Op α)) : Op α → Option (Rank α)
  | .recv source => (oldest ranks source r).map (fun value =>
      { ranks r with todo := rest, value := value
                     received := record (ranks r).received source value })
  | .compute f => some { ranks r with todo := rest, value := f (ranks r).value }
  | .send dest => some
      { ranks r with todo := rest, sent := record (ranks r).sent dest (ranks r).value }
  | .contribute => some
      { ranks r with todo := rest, contributed := (ranks r).contributed ++ [(ranks r).value] }
  | .collect use => (gather ranks (ranks r).collected n).map (fun parts =>
      { ranks r with todo := rest, value := use (ranks r).value parts
                     collected := (ranks r).collected + 1 })
  | .trap => none

/-- The next step of rank `r`; none if its program is over or what it waits for is not there. -/
def next (n : ℕ) (ranks : ℕ → Rank α) (r : ℕ) : Option (Rank α) :=
  match (ranks r).todo with
  | [] => none
  | op :: rest => perform n ranks r rest op

/-! ### Ranks only add to what they have published -/

/-- A rank only ever adds to what it has sent and contributed. -/
structure Grows (a b : Rank α) : Prop where
  sent : ∀ j, a.sent j <+: b.sent j
  contributed : a.contributed <+: b.contributed

/-- To record a value keeps what was recorded before as a prefix. -/
theorem prefix_record (log : ℕ → List α) (i : ℕ) (value : α) (j : ℕ) :
    log j <+: record log i value j := by
  by_cases hj : j = i
  · subst hj
    rw [record, Function.update_self]
    exact List.prefix_append _ _
  · rw [record, Function.update_of_ne hj]

/-- A step performs the head of the program. -/
theorem next_cases {n r : ℕ} {ranks : ℕ → Rank α} {b : Rank α} (h : next n ranks r = some b) :
    ∃ op rest, (ranks r).todo = op :: rest ∧ perform n ranks r rest op = some b := by
  unfold next at h
  split at h
  case h_1 => simp at h
  case h_2 op rest htodo => exact ⟨op, rest, htodo, h⟩

/-- A rank with something to do performs it. -/
theorem next_eq {n r : ℕ} {ranks : ℕ → Rank α} {op : Op α} {rest : List (Op α)}
    (h : (ranks r).todo = op :: rest) : next n ranks r = perform n ranks r rest op := by
  rw [next, h]

/-- A step of a rank only adds to what it has sent and contributed. -/
theorem next_grows {n r : ℕ} {ranks : ℕ → Rank α} {b : Rank α} (h : next n ranks r = some b) :
    Grows (ranks r) b := by
  obtain ⟨op, rest, -, h⟩ := next_cases h
  cases op with
  | recv source =>
    obtain ⟨value, -, rfl⟩ := Option.map_eq_some_iff.mp h
    exact ⟨fun j => List.prefix_rfl, List.prefix_rfl⟩
  | compute f =>
    obtain rfl := Option.some.inj h
    exact ⟨fun j => List.prefix_rfl, List.prefix_rfl⟩
  | send dest =>
    obtain rfl := Option.some.inj h
    exact ⟨fun j => prefix_record _ _ _ _, List.prefix_rfl⟩
  | contribute =>
    obtain rfl := Option.some.inj h
    exact ⟨fun j => List.prefix_rfl, List.prefix_append _ _⟩
  | collect use =>
    obtain ⟨parts, -, rfl⟩ := Option.map_eq_some_iff.mp h
    exact ⟨fun j => List.prefix_rfl, List.prefix_rfl⟩
  | trap => simp [perform] at h

variable {n r j : ℕ} {ranks : ℕ → Rank α} {a b : Rank α}

/-- What is in a log stays there, at its place. -/
theorem getElem?_of_prefix {l l' : List α} (h : l <+: l') {k : ℕ} {value : α}
    (hk : l[k]? = some value) : l'[k]? = some value := by
  obtain ⟨hlt, rfl⟩ := List.getElem?_eq_some_iff.mp hk
  exact List.prefix_iff_getElem?.mp h k hlt

/-- The value that a rank will receive next stays the same when another rank goes on. -/
theorem oldest_stable {source : ℕ} {value : α} (hne : r ≠ j) (hgrows : Grows (ranks j) b)
    (h : oldest ranks source r = some value) :
    oldest (Function.update ranks j b) source r = some value := by
  unfold oldest at h ⊢
  rw [Function.update_of_ne hne]
  by_cases hsource : source = j
  · subst hsource
    rw [Function.update_self]
    exact getElem?_of_prefix (hgrows.sent r) h
  · rw [Function.update_of_ne hsource]
    exact h

/-- What was gathered stays the same when another rank goes on, since contributions are only
    added. -/
theorem gather_stable {k : ℕ} {parts : List α} (hgrows : Grows (ranks j) b)
    (h : gather ranks k n = some parts) :
    gather (Function.update ranks j b) k n = some parts := by
  induction n generalizing parts with
  | zero => exact h
  | succ n ih =>
    simp only [gather, Option.bind_eq_bind, Option.bind_eq_some_iff, Option.pure_def,
      Option.some.injEq] at h ⊢
    obtain ⟨before, hbefore, part, hpart, rfl⟩ := h
    refine ⟨before, ih hbefore, part, ?_, rfl⟩
    by_cases hn : n = j
    · subst hn
      rw [Function.update_self]
      exact getElem?_of_prefix hgrows.contributed hpart
    · rw [Function.update_of_ne hn]
      exact hpart

/-- A step that a rank can take it can still take, with the same outcome, after a step of another
    rank. -/
theorem next_stable (hne : r ≠ j) (h : next n ranks r = some a) (hgrows : Grows (ranks j) b) :
    next n (Function.update ranks j b) r = some a := by
  have hown : Function.update ranks j b r = ranks r := Function.update_of_ne hne _ _
  obtain ⟨op, rest, htodo, h⟩ := next_cases h
  rw [next_eq (by rw [hown]; exact htodo)]
  cases op with
  | recv source =>
    obtain ⟨value, hvalue, rfl⟩ := Option.map_eq_some_iff.mp h
    rw [perform, oldest_stable hne hgrows hvalue, hown]
    rfl
  | compute f => rwa [perform, hown]
  | send dest => rwa [perform, hown]
  | contribute => rwa [perform, hown]
  | collect use =>
    obtain ⟨parts, hparts, rfl⟩ := Option.map_eq_some_iff.mp h
    rw [perform, hown, gather_stable hgrows hparts]
    rfl
  | trap => simp [perform] at h

/-- The `n` ranks as parties, of which each goes on as its own program says. -/
def parties (α : Type) (n : ℕ) : Parties ℕ (Rank α) where
  next := next n
  Grows := Grows
  next_grows := fun _ _ _ => next_grows
  next_stable := fun _ _ _ _ _ => next_stable

/-- When every program is over, no rank has a step. -/
theorem stuck_of_done (h : ∀ r, (ranks r).todo = []) : (parties α n).Stuck ranks := by
  intro r
  apply Parties.step_eq_none.mpr
  show next n ranks r = none
  rw [next, h r]

/-- With one step a rank receives nothing, or the oldest value on its way from a rank. -/
theorem next_received (h : next n ranks r = some b) (i : ℕ) :
    b.received i = (ranks r).received i ∨
      ∃ value, oldest ranks i r = some value ∧
        b.received i = (ranks r).received i ++ [value] := by
  obtain ⟨op, rest, -, h⟩ := next_cases h
  cases op with
  | recv source =>
    obtain ⟨value, hvalue, rfl⟩ := Option.map_eq_some_iff.mp h
    by_cases hi : i = source
    · subst hi
      exact .inr ⟨value, hvalue, Function.update_self ..⟩
    · exact .inl (Function.update_of_ne hi _ _)
  | compute f =>
    obtain rfl := Option.some.inj h
    exact .inl rfl
  | send dest =>
    obtain rfl := Option.some.inj h
    exact .inl rfl
  | contribute =>
    obtain rfl := Option.some.inj h
    exact .inl rfl
  | collect use =>
    obtain ⟨parts, -, rfl⟩ := Option.map_eq_some_iff.mp h
    exact .inl rfl
  | trap => simp [perform] at h

/-- **Links.**  What has been received from a rank is what it has sent, as far as it goes. -/
theorem received_sent {s₀ : ℕ → Rank α} {run : List ℕ}
    (hstart : ∀ i j, (s₀ j).received i <+: (s₀ i).sent j) (h : (parties α n).Run s₀ run ranks)
    (i j : ℕ) : (ranks j).received i <+: (ranks i).sent j := by
  refine Trace.invariant (I := fun _ s => ∀ i j, (s j).received i <+: (s i).sent j) hstart ?_ h i j
  intro _ s r s' _ ih hstep i j
  obtain ⟨b, hb, rfl⟩ := Parties.step_eq_some.mp hstep
  have hgrows : Grows (s r) b := next_grows hb
  have hsent : (s i).sent j <+: (Function.update s r b i).sent j := by
    by_cases hi : i = r
    · subst hi
      rw [Function.update_self]
      exact hgrows.sent j
    · rw [Function.update_of_ne hi]
  by_cases hj : j = r
  · subst hj
    rw [Function.update_self]
    rcases next_received hb i with hsame | ⟨value, holdest, hnew⟩
    · rw [hsame]
      exact (ih i j).trans hsent
    · rw [hnew]
      obtain ⟨hlt, rfl⟩ := List.getElem?_eq_some_iff.mp holdest
      exact (List.concat_get_prefix (ih i j) hlt).trans hsent
  · rw [Function.update_of_ne hj]
    exact (ih i j).trans hsent

/-! ### The steps of one rank, while the others wait -/

/-- Rank `r` can get from `a` to `b` while the others stay as they are in `ranks`. -/
def Goes (n : ℕ) (ranks : ℕ → Rank α) (r : ℕ) (a b : Rank α) : Prop :=
  ∃ run, (parties α n).Run (Function.update ranks r a) run (Function.update ranks r b)

namespace Goes

variable {c : Rank α} {op : Op α} {rest : List (Op α)}

/-- A rank that takes no step goes from itself to itself. -/
theorem refl (a : Rank α) : Goes n ranks r a a := ⟨[], .nil⟩

/-- A rank that goes somewhere and from there on has gone the whole way. -/
theorem trans (h : Goes n ranks r a b) (h' : Goes n ranks r b c) : Goes n ranks r a c := by
  obtain ⟨run, hrun⟩ := h
  obtain ⟨run', hrun'⟩ := h'
  exact ⟨run ++ run', hrun.append hrun'⟩

/-- One step of the rank, with the others where they are. -/
theorem step (htodo : a.todo = op :: rest)
    (hop : perform n (Function.update ranks r a) r rest op = some b) : Goes n ranks r a b := by
  have hown : Function.update ranks r a r = a := Function.update_self ..
  refine ⟨[r], .single (Parties.step_eq_some.mpr ⟨b, ?_, Function.update_idem ..⟩)⟩
  show next n (Function.update ranks r a) r = some b
  rw [next_eq (by rw [hown]; exact htodo), hop]

/-- A rank receives the next value that another rank has sent to it. -/
theorem recv {source : ℕ} {value : α} (htodo : a.todo = .recv source :: rest)
    (hne : source ≠ r)
    (hvalue : ((ranks source).sent r)[(a.received source).length]? = some value) :
    Goes n ranks r a
      { a with todo := rest, value := value, received := record a.received source value } := by
  apply step htodo
  have holdest : oldest (Function.update ranks r a) source r = some value := by
    rw [oldest, Function.update_of_ne hne, Function.update_self]
    exact hvalue
  rw [perform, holdest, Function.update_self]
  rfl

/-- A rank can always send, and goes on with the value that it has. -/
theorem send {dest : ℕ} (htodo : a.todo = .send dest :: rest) :
    Goes n ranks r a { a with todo := rest, sent := record a.sent dest a.value } := by
  apply step htodo
  rw [perform, Function.update_self]

/-- A rank can always contribute: it waits for nobody. -/
theorem contribute (htodo : a.todo = .contribute :: rest) :
    Goes n ranks r a { a with todo := rest, contributed := a.contributed ++ [a.value] } := by
  apply step htodo
  rw [perform, Function.update_self]

/-- A chain of computations can be run through, and leaves what they make of the value. -/
theorem computes {work : List (α → α)} (htodo : a.todo = work.map .compute ++ rest) :
    Goes n ranks r a
      { a with todo := rest, value := work.foldl (fun value f => f value) a.value } := by
  induction work generalizing a with
  | nil =>
    have hdone : rest = a.todo := htodo.symm
    subst hdone
    exact refl a
  | cons f work ih =>
    have hfirst : Goes n ranks r a
        { a with todo := work.map .compute ++ rest, value := f a.value } := by
      have htodo' : a.todo = .compute f :: (work.map .compute ++ rest) := htodo
      apply step htodo'
      rw [perform, Function.update_self]
    exact hfirst.trans (ih rfl)

/-- A rank collects once every rank has contributed. -/
theorem collect {use : α → List α → α} {parts : List α} (htodo : a.todo = .collect use :: rest)
    (hparts : gather (Function.update ranks r a) a.collected n = some parts) :
    Goes n ranks r a
      { a with todo := rest, value := use a.value parts, collected := a.collected + 1 } := by
  apply step htodo
  rw [perform, Function.update_self, hparts]
  rfl

end Goes

/-- What is gathered is the list of the contributions in the order of the ranks. -/
theorem gather_eq {k : ℕ} {part : ℕ → α} (h : ∀ j < n, (ranks j).contributed[k]? = some (part j)) :
    gather ranks k n = some ((List.range n).map part) := by
  induction n with
  | zero => rfl
  | succ n ih =>
    have hbefore := ih (fun j hj => h j (Nat.lt_succ_of_lt hj))
    rw [gather, hbefore, h n (Nat.lt_succ_self n), List.range_succ, List.map_append]
    rfl

/-- The ranks below `k` are as in `f`, the others as in `g`. -/
def upTo (f g : ℕ → Rank α) (k : ℕ) : ℕ → Rank α := fun r => if r < k then f r else g r

section upTo

variable {f g : ℕ → Rank α} {k : ℕ}

/-- Before the bound the first function counts. -/
theorem upTo_of_lt (h : r < k) : upTo f g k r = f r := if_pos h

/-- From the bound on the second function counts. -/
theorem upTo_of_le (h : k ≤ r) : upTo f g k r = g r := if_neg (by omega)

/-- **One after the other.**  If each rank gets from `g` to `f` once those before it have, then
    they all can. -/
theorem sweep (h : ∀ k < n, Goes n (upTo f g k) k (g k) (f k)) :
    ∃ run, (parties α n).Run g run (upTo f g n) := by
  have key : ∀ m ≤ n, ∃ run, (parties α n).Run g run (upTo f g m) := by
    intro m hm
    induction m with
    | zero => exact ⟨[], .nil⟩
    | succ m ih =>
      obtain ⟨run, hrun⟩ := ih (by omega)
      obtain ⟨run', hrun'⟩ := h m hm
      have hfrom : Function.update (upTo f g m) m (g m) = upTo f g m := by
        rw [← upTo_of_le (f := f) (g := g) (Nat.le_refl m), Function.update_eq_self]
      have hto : Function.update (upTo f g m) m (f m) = upTo f g (m + 1) := by
        ext1 r
        simp only [Function.update_apply, upTo]
        grind
      rw [hfrom, hto] at hrun'
      exact ⟨run ++ run', hrun.append hrun'⟩
  exact key n (Nat.le_refl n)

end upTo

end Ranks

end ShareCompute.Library
