import ShareCompute.Library.Ranks

namespace ShareCompute.Library

/-!
# A chain of stages with a gathering at its end

Rank `r` of a chain works through stage `r`, sends what it makes to the next rank unless it is
the last one, and goes on with what all of them have made.  A stage either goes on with what the
rank before it has sent, or starts from the input like the first one.

* `output` — what a stage makes.
* `run_finishes` — the ranks, one after the other, get to the end.
* `run_length_le`, `eq_allFinished` — so does every run, however the ranks interleave.
* `received_eq_sent` — what is sent is received when every stage after the first receives.
-/

/-- One stage: whether it waits for the one before it, and what it does. -/
structure Stage (α : Type) where
  receives : Bool
  work : List (α → α)

/-- What a stage makes of a value: its work, one function after the other. -/
def Stage.apply {α : Type} (stage : Stage α) (value : α) : α :=
  stage.work.foldl (fun value f => f value) value

/-- The `n` stages of a chain, and what each rank makes of all results at the end. -/
structure StageChain (α : Type) where
  n : ℕ
  stage : ℕ → Stage α
  /-- nothing comes before the first stage -/
  first : (stage 0).receives = false
  /-- what a rank makes of its value and of what all have made -/
  use : α → List α → α

namespace StageChain

open Ranks

variable {α : Type} (c : StageChain α) (input : α)

/-- What is left to do after the work. -/
def afterWork (r : ℕ) : List (Op α) :=
  (if r + 1 = c.n then [] else [.send (r + 1)]) ++ [.contribute, .collect c.use]

/-- The program of a rank: receive if the stage does, work, send unless it is the last, and
    gather. -/
def program (r : ℕ) : List (Op α) :=
  (if (c.stage r).receives then [.recv (r - 1)] else []) ++
    ((c.stage r).work.map .compute ++ c.afterWork r)

/-- A rank at its start, with the input in hand; there are none behind the last. -/
def start (r : ℕ) : Rank α := .start (if r < c.n then c.program r else []) input

/-! ### What the stages make -/

/-- What stage `r` makes, of the input or of what the stage before it has made. -/
def output : ℕ → α
  | 0 => (c.stage 0).apply input
  | r + 1 => (c.stage (r + 1)).apply (if (c.stage (r + 1)).receives then output r else input)

/-- What stage `r` starts from: what it has received, or the input. -/
def given (r : ℕ) : α := if (c.stage r).receives then c.output input (r - 1) else input

/-- The output of a stage is what it makes of what it is given. -/
theorem output_eq (r : ℕ) : c.output input r = (c.stage r).apply (c.given input r) := by
  cases r with
  | zero => rw [output, given, c.first]; rfl
  | succ r => rw [output, given, Nat.add_sub_cancel]

/-- The outputs of all stages, in the order of the ranks. -/
def outputs : List α := (List.range c.n).map (c.output input)

/-! ### The way of one rank -/

/-- What rank `r` sends in a whole run: its output to the next rank, and nothing from the last
    one. -/
def sentBy (r : ℕ) : ℕ → List α :=
  if r + 1 = c.n then fun _ => [] else record (fun _ => []) (r + 1) (c.output input r)

/-- What rank `r` receives in a whole run: the output of the rank before it, if its stage
    receives. -/
def receivedBy (r : ℕ) : ℕ → List α :=
  if (c.stage r).receives then record (fun _ => []) (r - 1) (c.output input (r - 1))
  else fun _ => []

/-- Rank `r` once it has contributed, with what it has sent and received until then. -/
def posted (r : ℕ) : Rank α where
  todo := [.collect c.use]
  value := c.output input r
  sent := c.sentBy input r
  received := c.receivedBy input r
  contributed := [c.output input r]
  collected := 0

/-- Rank `r` once it is done, with what it has made of all contributions. -/
def finished (r : ℕ) : Rank α :=
  { c.posted input r with
    todo := []
    value := c.use (c.output input r) (c.outputs input)
    collected := 1 }

variable {c input} {r : ℕ}

/-- What is recorded first for a rank is all there is for it. -/
theorem record_nil_self (i : ℕ) (value : α) : record (fun _ => []) i value i = [value] := by
  rw [record, Function.update_self]
  rfl

/-- What is recorded for one rank is not there for another. -/
theorem record_nil_of_ne {i j : ℕ} (h : j ≠ i) (value : α) :
    record (fun _ => []) i value j = [] := by
  rw [record, Function.update_of_ne h]

/-- The value that the stage starts from comes in, once the rank before it has sent. -/
theorem goes_received (hr : r < c.n) :
    Goes c.n (upTo (c.posted input) (c.start input) r) r (c.start input r)
      { Rank.start ((c.stage r).work.map .compute ++ c.afterWork r) (c.given input r) with
        received := c.receivedBy input r } := by
  rw [start, if_pos hr, given, receivedBy]
  cases hreceives : (c.stage r).receives with
  | false =>
    have hprogram : c.program r = (c.stage r).work.map .compute ++ c.afterWork r := by
      rw [program, hreceives]
      rfl
    rw [hprogram]
    exact .refl _
  | true =>
    obtain ⟨q, rfl⟩ : ∃ q, r = q + 1 := by
      apply Nat.exists_eq_succ_of_ne_zero
      rintro rfl
      rw [c.first] at hreceives
      simp at hreceives
    have hprogram : c.program (q + 1) =
        .recv q :: ((c.stage (q + 1)).work.map .compute ++ c.afterWork (q + 1)) := by
      rw [program, hreceives]
      rfl
    rw [hprogram]
    apply Goes.recv rfl (Nat.ne_of_lt (Nat.lt_succ_self q))
    rw [upTo_of_lt (Nat.lt_succ_self q)]
    show (c.sentBy input q (q + 1))[0]? = some (c.output input q)
    rw [sentBy, if_neg (Nat.ne_of_lt hr), record_nil_self]
    rfl

/-- What the stage makes goes on to the next rank, if there is one. -/
theorem goes_sent {ranks : ℕ → Rank α} :
    Goes c.n ranks r
      { Rank.start (c.afterWork r) (c.output input r) with received := c.receivedBy input r }
      { Rank.start [.contribute, .collect c.use] (c.output input r) with
        received := c.receivedBy input r
        sent := c.sentBy input r } := by
  rw [afterWork, sentBy]
  by_cases hlast : r + 1 = c.n
  · rw [if_pos hlast, if_pos hlast]
    exact .refl _
  · rw [if_neg hlast, if_neg hlast]
    exact Goes.send rfl

/-- A rank gets from its start to its contribution once the rank before it has sent. -/
theorem goes_posted (hr : r < c.n) :
    Goes c.n (upTo (c.posted input) (c.start input) r) r (c.start input r)
      (c.posted input r) := by
  have hwork : Goes c.n (upTo (c.posted input) (c.start input) r) r
      { Rank.start ((c.stage r).work.map .compute ++ c.afterWork r) (c.given input r) with
        received := c.receivedBy input r }
      { Rank.start (c.afterWork r) (c.output input r) with
        received := c.receivedBy input r } := by
    rw [output_eq]
    exact Goes.computes rfl
  exact (((goes_received hr).trans hwork).trans goes_sent).trans (Goes.contribute rfl)

/-! ### The run -/

variable (c input)

/-- All ranks have contributed, and none has collected yet. -/
def allPosted : ℕ → Rank α := upTo (c.posted input) (c.start input) c.n

/-- All ranks are done, and nobody can go on. -/
def allFinished : ℕ → Rank α := upTo (c.finished input) (c.allPosted input) c.n

variable {c input}

/-- A rank of the chain has posted what it sends and contributes. -/
theorem allPosted_of_lt (hr : r < c.n) : c.allPosted input r = c.posted input r := upTo_of_lt hr

/-- A rank of the chain has finished with the value that was gathered. -/
theorem allFinished_of_lt (hr : r < c.n) : c.allFinished input r = c.finished input r :=
  upTo_of_lt hr

/-- A rank collects once all have contributed. -/
theorem goes_finished (hr : r < c.n) :
    Goes c.n (upTo (c.finished input) (c.allPosted input) r) r (c.allPosted input r)
      (c.finished input r) := by
  rw [allPosted_of_lt hr]
  apply Goes.collect rfl
  apply gather_eq
  intro j hj
  -- whether it has collected or not, a rank has contributed its output
  have hposted : (c.allPosted input j).contributed = [c.output input j] := by
    rw [allPosted_of_lt hj]
    rfl
  have hcontributed : (Function.update (upTo (c.finished input) (c.allPosted input) r) r
      (c.posted input r) j).contributed = [c.output input j] := by
    by_cases hjr : j = r
    · subst hjr
      rw [Function.update_self]
      rfl
    · rw [Function.update_of_ne hjr, upTo]
      split
      · rfl
      · exact hposted
  rw [hcontributed]
  rfl

/-- Every rank has come to the end of its program. -/
theorem allFinished_done (r : ℕ) : (c.allFinished input r).todo = [] := by
  by_cases hr : r < c.n
  · rw [allFinished_of_lt hr]
    rfl
  · have hle : c.n ≤ r := Nat.le_of_not_lt hr
    rw [allFinished, upTo_of_le hle, allPosted, upTo_of_le hle, start, if_neg hr]
    rfl

/-- When all have finished, nobody has a step. -/
theorem stuck_allFinished : (parties α c.n).Stuck (c.allFinished input) :=
  stuck_of_done allFinished_done

variable (c input)

/-- The ranks, one after the other, come to their ends. -/
theorem run_finishes : ∃ run, (parties α c.n).Run (c.start input) run (c.allFinished input) := by
  obtain ⟨run, hrun⟩ := sweep (fun k hk => @goes_posted α c input k hk)
  obtain ⟨run', hrun'⟩ := sweep (fun k hk => @goes_finished α c input k hk)
  exact ⟨run ++ run', hrun.append hrun'⟩

/-- **Every run ends**, after a number of steps that does not depend on their order. -/
theorem run_length_le : ∃ bound, ∀ run ranks,
    (parties α c.n).Run (c.start input) run ranks → run.length ≤ bound := by
  obtain ⟨run, hrun⟩ := c.run_finishes input
  exact ⟨run.length, fun other ranks hother => hrun.length_le stuck_allFinished hother⟩

/-- **Every run ends the same way**: where nobody can go on, all ranks are done. -/
theorem eq_allFinished {run : List ℕ} {ranks : ℕ → Rank α}
    (hrun : (parties α c.n).Run (c.start input) run ranks) (hend : (parties α c.n).Stuck ranks) :
    ranks = c.allFinished input := by
  obtain ⟨run', hrun'⟩ := c.run_finishes input
  exact hrun'.unique stuck_allFinished hrun hend

/-! ### What is sent and what is received -/

/-- What goes from rank `i` to rank `j`. -/
def link (i j : ℕ) : List α := if j = i + 1 ∧ j < c.n then [c.output input i] else []

variable {c input}

/-- What a finished rank has sent is what its link carries. -/
theorem sent_allFinished (i j : ℕ) : (c.allFinished input i).sent j = c.link input i j := by
  by_cases hi : i < c.n
  · rw [allFinished_of_lt hi]
    show c.sentBy input i j = c.link input i j
    rw [sentBy, link]
    by_cases hj : j = i + 1
    · subst hj
      by_cases hlast : i + 1 = c.n
      · rw [if_pos hlast, if_neg (by omega)]
      · rw [if_neg hlast, if_pos (by omega), record_nil_self]
    · have hno : ¬(j = i + 1 ∧ j < c.n) := fun h => hj h.1
      rw [if_neg hno]
      split
      · rfl
      · exact record_nil_of_ne hj _
  · have hle : c.n ≤ i := Nat.le_of_not_lt hi
    rw [allFinished, upTo_of_le hle, allPosted, upTo_of_le hle, link, if_neg (by omega)]
    rfl

/-- What a finished rank has received is what the link carries, if its stage receives at all. -/
theorem received_allFinished {i j : ℕ} (hj : j < c.n) :
    (c.allFinished input j).received i =
      if (c.stage j).receives then c.link input i j else [] := by
  rw [allFinished_of_lt hj]
  show c.receivedBy input j i = _
  rw [receivedBy]
  cases hreceives : (c.stage j).receives with
  | false => rfl
  | true =>
    have hpos : j ≠ 0 := by
      rintro rfl
      rw [c.first] at hreceives
      simp at hreceives
    rw [if_pos rfl, if_pos rfl, link]
    by_cases hi : i = j - 1
    · rw [hi, record_nil_self, if_pos (by omega)]
    · rw [record_nil_of_ne hi, if_neg (by omega)]

/-- What is sent is received if every stage after the first receives. -/
theorem received_eq_sent (h : ∀ r, 0 < r → r < c.n → (c.stage r).receives = true) (i j : ℕ) :
    (c.allFinished input j).received i = (c.allFinished input i).sent j := by
  rw [sent_allFinished]
  by_cases hj : j < c.n
  · rw [received_allFinished hj]
    by_cases hpos : 0 < j
    · rw [if_pos (h j hpos hj)]
    · have hno : ¬(j = i + 1 ∧ j < c.n) := by omega
      rw [link, if_neg hno, ite_self]
  · have hle : c.n ≤ j := Nat.le_of_not_lt hj
    rw [allFinished, upTo_of_le hle, allPosted, upTo_of_le hle, link, if_neg (by omega)]
    rfl

end StageChain

end ShareCompute.Library
