import Mathlib.Algebra.Ring.Int.Defs
import Mathlib.Algebra.BigOperators.Group.List.Basic

namespace ShareCompute.App

/-!
# The cache lines of the Android log

`WeightCache.java`: what a session logs of the native worker's running totals.  The worker owns
the decisions and exposes only totals, so hits, stores and rejections are seen as changes in
those; a `long` is an `Int64`, whose arithmetic wraps.

* `Balanced` — one total: what was logged and what is pending make up its change.
* `observe_conserved` — a call of `observe` keeps the books of all three totals.
* `cache_log_conserves` — a whole session.
-/

/-! ### The three calls -/

/-- The totals that the class reads: `totals[3]`, `totals[4]` and `totals[5]`. -/
structure Totals where
  hit : Int64
  stored : Int64
  rejected : Int64
deriving DecidableEq

/-- `totals != null && totals.length >= 6` -/
def Totals.read : Option (List Int64) → Option Totals
  | some (_ :: _ :: _ :: hit :: stored :: rejected :: _) => some ⟨hit, stored, rejected⟩
  | _ => none

/-- An entry of the cache directory: whether it is a file, and its length. -/
structure CacheFile where
  isFile : Bool
  length : Int64

/-- The lines that the class logs, each with the numbers it shows. -/
inductive CacheLine
  | cacheState (files : ℕ) (mib : Int64)
  | cacheRejected (new total : Int64)
  | cache (hitBytes storedBytes hitTotal storedTotal : Int64) (isFinal : Bool)
deriving DecidableEq

/-- The static fields of `WeightCache`: the totals at the last look, and what waits to be
    written. -/
structure WeightCache where
  hit : Int64
  stored : Int64
  rejected : Int64
  reportedAt : Int64
  pendingHit : Int64
  pendingStored : Int64
deriving DecidableEq

namespace WeightCache

/-- The size of the cache: the lengths of the files in its directory, or `0` where it cannot be
    listed. -/
def bytes (files : Option (List CacheFile)) : Int64 :=
  ((files.getD []).filter CacheFile.isFile).foldl (fun total f => total + f.length) 0

/-- A session is starting.  The directory is listed twice, for the count and for the size. -/
def begin (self : WeightCache) (files again : Option (List CacheFile))
    (totals : Option (List Int64)) (now : Int64) : WeightCache × List CacheLine :=
  let count := ((files.getD []).filter CacheFile.isFile).length
  let self := match Totals.read totals with
    | some totals =>
      { self with hit := totals.hit, stored := totals.stored, rejected := totals.rejected }
    | none => self
  ({ self with pendingHit := 0, pendingStored := 0, reportedAt := now },
    [.cacheState count (bytes again >>> 20)])

/-- A rejection is logged the moment it is seen. -/
def seeRejected (self : WeightCache) (total : Int64) : WeightCache × List CacheLine :=
  if self.rejected < total then
    ({ self with rejected := total }, [.cacheRejected (total - self.rejected) total])
  else (self, [])

/-- A larger total of the hits is taken over, and the difference waits to be logged. -/
def seeHit (self : WeightCache) (total : Int64) : WeightCache :=
  if self.hit < total then
    { self with pendingHit := self.pendingHit + (total - self.hit), hit := total }
  else self

/-- A larger total of the stored bytes is taken over, and the difference waits to be logged. -/
def seeStored (self : WeightCache) (total : Int64) : WeightCache :=
  if self.stored < total then
    { self with pendingStored := self.pendingStored + (total - self.stored), stored := total }
  else self

/-- `pendingHit > 0 || pendingStored > 0` -/
def pending (self : WeightCache) : Bool := 0 < self.pendingHit || 0 < self.pendingStored

/-- The line about the hits and stores that wait, and `pendingHit = pendingStored = 0`. -/
def flush (self : WeightCache) (isFinal : Bool) : WeightCache × List CacheLine :=
  ({ self with pendingHit := 0, pendingStored := 0 },
    [.cache self.pendingHit self.pendingStored self.hit self.stored isFinal])

/-- `observe(totals, now)`: the totals of a heartbeat, if it carried any, and the lines that are
    logged at once. -/
def observe (self : WeightCache) (totals : Option (List Int64)) (now : Int64) :
    WeightCache × List CacheLine :=
  match Totals.read totals with
  | none => (self, [])
  | some totals =>
    let (self, lines) := self.seeRejected totals.rejected
    let self := (self.seeHit totals.hit).seeStored totals.stored
    if self.pending && decide (10000 ≤ now - self.reportedAt) then
      let (self, written) := self.flush false
      ({ self with reportedAt := now }, lines ++ written)
    else (self, lines)

/-- The session ended: write whatever hits and stores have not been written yet. -/
def «end» (self : WeightCache) (totals : Option (List Int64)) (now : Int64) :
    WeightCache × List CacheLine :=
  let (self, lines) := self.observe totals now
  if self.pending then
    let (self, written) := self.flush true
    (self, lines ++ written)
  else (self, lines)

/-- Some calls of `observe`, behind what has been logged. -/
def observeAll (self : WeightCache) (log : List CacheLine)
    (calls : List (Option (List Int64) × Int64)) : WeightCache × List CacheLine :=
  calls.foldl (fun now call =>
    let (next, lines) := now.1.observe call.1 call.2
    (next, now.2 ++ lines)) (self, log)

end WeightCache

/-! ### What the lines say -/

namespace CacheLine

/-- The hits that a line accounts for. -/
def hitBytes : CacheLine → ℤ
  | .cache hitBytes _ _ _ _ => hitBytes.toInt
  | _ => 0

/-- The stored bytes that a line accounts for. -/
def storedBytes : CacheLine → ℤ
  | .cache _ storedBytes _ _ _ => storedBytes.toInt
  | _ => 0

/-- The rejections that a line accounts for. -/
def newRejected : CacheLine → ℤ
  | .cacheRejected new _ => new.toInt
  | _ => 0

end CacheLine

/-- All that some lines say of one thing. -/
def logged (amount : CacheLine → ℤ) (log : List CacheLine) : ℤ := (log.map amount).sum

/-- What two logs account for is the sum of what each does. -/
@[simp] theorem logged_append (amount : CacheLine → ℤ) (log more : List CacheLine) :
    logged amount (log ++ more) = logged amount log + logged amount more := by
  rw [logged, List.map_append, List.sum_append, logged, logged]

/-- An empty log accounts for nothing, which is where every run of the worker begins. -/
@[simp] theorem logged_nil (amount : CacheLine → ℤ) : logged amount [] = 0 := rfl

/-- A log of one line accounts for what the line does. -/
@[simp] theorem logged_singleton (amount : CacheLine → ℤ) (line : CacheLine) :
    logged amount [line] = amount line := by
  simp [logged]

/-! ### The books of one total -/

/-- What was logged and what is pending make up the change of a total since its baseline. -/
structure Balanced (base current waiting : Int64) (written : ℤ) : Prop where
  since : base.toInt ≤ current.toInt
  waits : 0 ≤ waiting.toInt
  wrote : 0 ≤ written
  books : written + waiting.toInt = current.toInt - base.toInt

namespace Balanced

variable {base current waiting total : Int64} {written : ℤ}

/-- At the start of a session nothing was logged and nothing is pending, so the books balance. -/
theorem start (base : Int64) : Balanced base base 0 0 := by
  refine ⟨Int.le_refl _, Int.le_refl _, Int.le_refl _, ?_⟩
  rw [Int64.toInt_zero]
  omega

/-- A number that a `long` can hold is kept by the arithmetic. -/
theorem bmod_long {n : ℤ} (hlow : -2 ^ 63 ≤ n) (hhigh : n < 2 ^ 63) : n.bmod (2 ^ 64) = n := by
  apply Int.bmod_eq_of_le
  · omega
  · omega

/-- When a larger total is seen, the change waits to be written. -/
theorem see (h : Balanced base current waiting written) (hle : current.toInt ≤ total.toInt)
    (hfits : total.toInt - base.toInt < 2 ^ 63) :
    Balanced base total (waiting + (total - current)) written := by
  obtain ⟨hsince, hwaits, hwrote, hbooks⟩ := h
  have hsub : (total - current).toInt = total.toInt - current.toInt := by
    rw [Int64.toInt_sub, bmod_long]
    all_goals omega
  have hadd : (waiting + (total - current)).toInt = waiting.toInt + (total - current).toInt := by
    rw [Int64.toInt_add, bmod_long]
    all_goals omega
  exact ⟨by omega, by omega, hwrote, by omega⟩

/-- When all that waits is written, nothing waits and the log accounts for it. -/
theorem write (h : Balanced base current waiting written) :
    Balanced base current 0 (written + waiting.toInt) := by
  refine ⟨h.since, Int.le_refl _, Int.add_nonneg h.wrote h.waits, ?_⟩
  rw [h.books, Int64.toInt_zero]
  omega

/-- Nothing waits unless the test says so. -/
theorem waiting_eq_zero (h : Balanced base current waiting written) (hnone : ¬0 < waiting) :
    waiting = 0 := by
  have hwaits := h.waits
  rw [Int64.lt_iff_toInt_lt, Int64.toInt_zero] at hnone
  apply Int64.toInt.inj
  rw [Int64.toInt_zero]
  omega

end Balanced

/-! ### Sessions -/

namespace Totals

/-- Native totals at two moments, the later ones at least as large. -/
def UpTo (earlier later : Totals) : Prop :=
  earlier.hit ≤ later.hit ∧ earlier.stored ≤ later.stored ∧ earlier.rejected ≤ later.rejected

/-- Whether one reading is up to another can be computed. -/
instance : DecidableRel UpTo := fun _ _ => inferInstanceAs (Decidable (_ ∧ _ ∧ _))

/-- The changes between two moments are numbers that a `long` can hold, as those of totals are that
    count up from 0. -/
def Spans (first last : Totals) : Prop :=
  last.hit.toInt - first.hit.toInt < 2 ^ 63 ∧ last.stored.toInt - first.stored.toInt < 2 ^ 63 ∧
    last.rejected.toInt - first.rejected.toInt < 2 ^ 63

/-- Whether the changes between two readings fit a `long` can be computed. -/
instance : DecidableRel Spans := fun _ _ => inferInstanceAs (Decidable (_ ∧ _ ∧ _))

/-- Where the changes up to the last reading fit a `long`, those up to an earlier one do. -/
theorem Spans.of_upTo {first totals last : Totals} (h : first.Spans last)
    (hle : totals.UpTo last) : first.Spans totals := by
  obtain ⟨hhit, hstored, hrejected⟩ := h
  simp only [UpTo, Int64.le_iff_toInt_le] at hle
  exact ⟨by omega, by omega, by omega⟩

end Totals

namespace WeightCache

/-- The three totals as the cache last saw them. -/
def totals (self : WeightCache) : Totals := ⟨self.hit, self.stored, self.rejected⟩

/-- The books of a session: what it logged, what is pending, and the change since it began. -/
structure Conserved (first : Totals) (cache : WeightCache) (log : List CacheLine) : Prop where
  hit : Balanced first.hit cache.hit cache.pendingHit (logged CacheLine.hitBytes log)
  stored : Balanced first.stored cache.stored cache.pendingStored (logged CacheLine.storedBytes log)
  rejected : Balanced first.rejected cache.rejected 0 (logged CacheLine.newRejected log)

/-- A total that is not larger than the one seen is the same, and adds nothing to what waits. -/
theorem add_sub_of_not_lt {current total : Int64} (waiting : Int64) (hle : current ≤ total)
    (hlt : ¬current < total) : current = total ∧ waiting = waiting + (total - current) := by
  obtain rfl : current = total := Int64.le_antisymm hle (Int64.not_lt.mp hlt)
  exact ⟨rfl, by rw [Int64.sub_self, Int64.add_zero]⟩

/-- Equal totals change nothing, so that the test does not matter. -/
theorem seeHit_eq (self : WeightCache) {total : Int64} (hle : self.hit ≤ total) :
    self.seeHit total =
      { self with pendingHit := self.pendingHit + (total - self.hit), hit := total } := by
  rw [seeHit]
  split
  case isTrue => rfl
  case isFalse hlt =>
    obtain ⟨hhit, hwaiting⟩ := add_sub_of_not_lt self.pendingHit hle hlt
    rw [← hwaiting, ← hhit]

/-- Taking over the stored bytes has one form, whether or not the total is larger. -/
theorem seeStored_eq (self : WeightCache) {total : Int64} (hle : self.stored ≤ total) :
    self.seeStored total =
      { self with
        pendingStored := self.pendingStored + (total - self.stored)
        stored := total } := by
  rw [seeStored]
  split
  case isTrue => rfl
  case isFalse hlt =>
    obtain ⟨hstored, hwaiting⟩ := add_sub_of_not_lt self.pendingStored hle hlt
    rw [← hwaiting, ← hstored]

/-- When nothing is pending, neither hits nor stored bytes wait. -/
theorem pending_eq_false {self : WeightCache} (h : self.pending = false) :
    ¬0 < self.pendingHit ∧ ¬0 < self.pendingStored := by
  rw [pending, Bool.or_eq_false_iff, decide_eq_false_iff_not, decide_eq_false_iff_not] at h
  exact h

namespace Conserved

variable {first totals : Totals} {self : WeightCache} {log : List CacheLine}

/-- A rejection is written at once, and nothing else changes. -/
theorem seeRejected (h : Conserved first self log) (hle : self.rejected ≤ totals.rejected)
    (hspans : first.Spans totals) :
    (self.seeRejected totals.rejected).1 = { self with rejected := totals.rejected } ∧
      Conserved first (self.seeRejected totals.rejected).1
        (log ++ (self.seeRejected totals.rejected).2) := by
  have hgrown := h.rejected.see (Int64.le_iff_toInt_le.mp hle) hspans.2.2
  rw [WeightCache.seeRejected]
  split
  case isTrue =>
    refine ⟨rfl, ?_, ?_, ?_⟩
    · simpa [CacheLine.hitBytes] using h.hit
    · simpa [CacheLine.storedBytes] using h.stored
    · simpa [CacheLine.newRejected] using hgrown.write
  case isFalse hlt =>
    have hsame : self.rejected = totals.rejected := (add_sub_of_not_lt 0 hle hlt).1
    refine ⟨by rw [← hsame], ?_⟩
    rw [List.append_nil]
    exact h

/-- Hits and stores wait side by side, and the log stays as it is. -/
theorem seeBoth (h : Conserved first self log) (hle : self.totals.UpTo totals)
    (hspans : first.Spans totals) :
    ((self.seeHit totals.hit).seeStored totals.stored).totals =
        ⟨totals.hit, totals.stored, self.rejected⟩ ∧
      Conserved first ((self.seeHit totals.hit).seeStored totals.stored) log := by
  obtain ⟨hhit, hstored, hrejected⟩ := hle
  rw [seeHit_eq self hhit, seeStored_eq _ (by exact hstored)]
  refine ⟨rfl, ?_, ?_, h.rejected⟩
  · exact h.hit.see (Int64.le_iff_toInt_le.mp hhit) hspans.1
  · exact h.stored.see (Int64.le_iff_toInt_le.mp hstored) hspans.2.1

/-- When a line is flushed, what waited is in the log. -/
theorem flush (h : Conserved first self log) (isFinal : Bool) :
    Conserved first (self.flush isFinal).1 (log ++ (self.flush isFinal).2) := by
  refine ⟨?_, ?_, ?_⟩
  · simpa [WeightCache.flush, CacheLine.hitBytes] using h.hit.write
  · simpa [WeightCache.flush, CacheLine.storedBytes] using h.stored.write
  · simpa [WeightCache.flush, CacheLine.newRejected] using h.rejected

end Conserved

/-- Totals that cannot be read change nothing. -/
theorem observe_of_none (self : WeightCache) {totals : Option (List Int64)} (now : Int64)
    (hread : Totals.read totals = none) : self.observe totals now = (self, []) := by
  rw [observe, hread]

/-- **A call of `observe`** keeps the books, and the totals that it read are the current ones. -/
theorem observe_conserved {first read : Totals} {self : WeightCache} {log : List CacheLine}
    (h : Conserved first self log) {totals : Option (List Int64)} (now : Int64)
    (hread : Totals.read totals = some read) (hle : self.totals.UpTo read)
    (hspans : first.Spans read) :
    (self.observe totals now).1.totals = read ∧
      Conserved first (self.observe totals now).1 (log ++ (self.observe totals now).2) := by
  -- rejections are logged at once, and hits and stores are put to what is pending
  obtain ⟨hsame, hnoted⟩ := h.seeRejected hle.2.2 hspans
  have hle' : (self.seeRejected read.rejected).1.totals.UpTo read := by
    rw [hsame]
    exact ⟨hle.1, hle.2.1, Int64.le_refl _⟩
  obtain ⟨htotals, hseen⟩ := hnoted.seeBoth hle' hspans
  have hread' : (((self.seeRejected read.rejected).1.seeHit read.hit).seeStored
      read.stored).totals = read := by
    rw [htotals, hsame]
  rw [observe, hread]
  dsimp only
  split
  case isTrue =>
    refine ⟨hread', ?_⟩
    -- the pending bytes are logged, and nothing is pending then
    have hwritten := hseen.flush false
    rw [List.append_assoc] at hwritten
    exact ⟨hwritten.hit, hwritten.stored, hwritten.rejected⟩
  case isFalse => exact ⟨hread', hseen⟩

/-- A session of several calls is its first call and then the others. -/
theorem observeAll_cons (self : WeightCache) (log : List CacheLine)
    (call : Option (List Int64) × Int64) (calls : List (Option (List Int64) × Int64)) :
    self.observeAll log (call :: calls) = (self.observe call.1 call.2).1.observeAll
      (log ++ (self.observe call.1 call.2).2) calls := rfl

/-- Some calls of `observe`, while the totals grow. -/
theorem observeAll_conserved {first last : Totals} {self : WeightCache} {log : List CacheLine}
    (h : Conserved first self log) (calls : List (Option (List Int64) × Int64))
    (hgrow : (self.totals :: (calls.filterMap fun call => Totals.read call.1) ++ [last]).Pairwise
      Totals.UpTo)
    (hspans : first.Spans last) :
    (self.observeAll log calls).1.totals.UpTo last ∧
      Conserved first (self.observeAll log calls).1 (self.observeAll log calls).2 := by
  induction calls generalizing self log with
  | nil => exact ⟨(List.pairwise_cons.mp hgrow).1 last (by simp), h⟩
  | cons call calls ih =>
    rw [observeAll_cons]
    rw [List.filterMap_cons] at hgrow
    cases hread : Totals.read call.1 with
    | none =>
      rw [hread] at hgrow
      rw [observe_of_none self call.2 hread, List.append_nil]
      exact ih h hgrow
    | some read =>
      rw [hread, List.cons_append, List.cons_append, List.pairwise_cons] at hgrow
      have hle : self.totals.UpTo read := hgrow.1 read (by simp)
      have hlast : read.UpTo last := (List.pairwise_cons.mp hgrow.2).1 last (by simp)
      obtain ⟨htotals, hnext⟩ := observe_conserved h call.2 hread hle (hspans.of_upTo hlast)
      apply ih hnext
      rw [htotals]
      exact hgrow.2

/-- The books when a session has begun: the totals are the baseline and nothing is pending. -/
theorem begin_conserved (self : WeightCache) (files again : Option (List CacheFile))
    {totals : Option (List Int64)} (now : Int64) {first : Totals}
    (hread : Totals.read totals = some first) :
    (self.begin files again totals now).1.totals = first ∧
      Conserved first (self.begin files again totals now).1
        (self.begin files again totals now).2 := by
  rw [begin, hread]
  refine ⟨rfl, ?_, ?_, ?_⟩
  all_goals exact Balanced.start _

/-- The end of a session: what it read last is written, and nothing is left pending. -/
theorem end_conserved {first last : Totals} {self : WeightCache} {log : List CacheLine}
    (h : Conserved first self log) {totals : Option (List Int64)} (now : Int64)
    (hread : Totals.read totals = some last) (hle : self.totals.UpTo last)
    (hspans : first.Spans last) :
    (self.end totals now).1.totals = last ∧
      ((self.end totals now).1.pendingHit = 0 ∧ (self.end totals now).1.pendingStored = 0) ∧
      Conserved first (self.end totals now).1 (log ++ (self.end totals now).2) := by
  obtain ⟨htotals, hseen⟩ := observe_conserved h now hread hle hspans
  rw [WeightCache.end]
  dsimp only
  split
  case isTrue =>
    have hwritten := hseen.flush true
    rw [List.append_assoc] at hwritten
    exact ⟨htotals, ⟨rfl, rfl⟩, hwritten⟩
  case isFalse hnone =>
    obtain ⟨hhit, hstored⟩ := pending_eq_false (Bool.not_eq_true _ ▸ hnone)
    exact ⟨htotals, ⟨hseen.hit.waiting_eq_zero hhit, hseen.stored.waiting_eq_zero hstored⟩, hseen⟩

/-- What the books of a session say. -/
theorem Conserved.logged_eq {first : Totals} {self : WeightCache} {log : List CacheLine}
    (h : Conserved first self log) :
    logged CacheLine.hitBytes log + self.pendingHit.toInt = self.hit.toInt - first.hit.toInt ∧
      logged CacheLine.storedBytes log + self.pendingStored.toInt
        = self.stored.toInt - first.stored.toInt ∧
      logged CacheLine.newRejected log = self.rejected.toInt - first.rejected.toInt := by
  refine ⟨h.hit.books, h.stored.books, ?_⟩
  have hrejected := h.rejected.books
  rw [Int64.toInt_zero] at hrejected
  omega

/-- **The cache log conserves the counters.**  In a session with non-decreasing totals, what was
    logged and what is pending always make up the change since it began, for hits, stores and
    rejections alike; at its end nothing is pending, and the lines sum to the whole change. -/
theorem cache_log_conserves (self : WeightCache) (files again : Option (List CacheFile))
    (atBegin atEnd : Option (List Int64)) (calls : List (Option (List Int64) × Int64))
    (beganAt endedAt : Int64) {first last : Totals}
    (hfirst : Totals.read atBegin = some first) (hlast : Totals.read atEnd = some last)
    (hgrow : (first :: (calls.filterMap fun call => Totals.read call.1) ++ [last]).Pairwise
      Totals.UpTo)
    (hspans : first.Spans last) :
    let began := self.begin files again atBegin beganAt
    let seen := began.1.observeAll began.2 calls
    let ended := seen.1.end atEnd endedAt
    let log := seen.2 ++ ended.2
    (logged CacheLine.hitBytes seen.2 + seen.1.pendingHit.toInt
          = seen.1.hit.toInt - first.hit.toInt ∧
        logged CacheLine.storedBytes seen.2 + seen.1.pendingStored.toInt
          = seen.1.stored.toInt - first.stored.toInt ∧
        logged CacheLine.newRejected seen.2 = seen.1.rejected.toInt - first.rejected.toInt) ∧
      (ended.1.pendingHit = 0 ∧ ended.1.pendingStored = 0) ∧
      logged CacheLine.hitBytes log = last.hit.toInt - first.hit.toInt ∧
      logged CacheLine.storedBytes log = last.stored.toInt - first.stored.toInt ∧
      logged CacheLine.newRejected log = last.rejected.toInt - first.rejected.toInt := by
  intro began seen ended log
  obtain ⟨hbegan, hbooks⟩ := begin_conserved self files again beganAt hfirst
  obtain ⟨hle, hseen⟩ := observeAll_conserved hbooks calls (by rw [hbegan]; exact hgrow) hspans
  obtain ⟨htotals, hnothing, hended⟩ := end_conserved hseen endedAt hlast hle hspans
  refine ⟨hseen.logged_eq, hnothing, ?_⟩
  obtain ⟨hhit, hstored, hrejected⟩ := hended.logged_eq
  rw [hnothing.1, Int64.toInt_zero, Int.add_zero] at hhit
  rw [hnothing.2, Int64.toInt_zero, Int.add_zero] at hstored
  rw [← htotals]
  exact ⟨hhit, hstored, hrejected⟩

/-- Hits are put together, a rejection is not, and the end writes what waits. -/
theorem cache_log_conserves_coalesced :
    let self : WeightCache := ⟨0, 0, 0, 0, 7, 0⟩
    let seen := (self.begin none none (some [0, 0, 0, 100, 50, 1]) 1000).1.observeAll []
      [(some [0, 0, 0, 130, 50, 2], 3000), (none, 5000), (some [0, 0, 0, 160, 80, 2], 11000),
        (some [0, 0, 0, 170, 80, 2], 13000)]
    let ended := seen.1.end (some [0, 0, 0, 175, 80, 2]) 14000
    (seen.2, ended.2) =
        ([.cacheRejected 1 2, .cache 60 30 160 80 false], [.cache 15 0 175 80 true]) ∧
      logged CacheLine.hitBytes ([.cacheState 0 0] ++ seen.2 ++ ended.2) = 75 := by
  refine ⟨by decide, ?_⟩
  exact (cache_log_conserves ⟨0, 0, 0, 0, 7, 0⟩ none none (some [0, 0, 0, 100, 50, 1])
    (some [0, 0, 0, 175, 80, 2])
    [(some [0, 0, 0, 130, 50, 2], 3000), (none, 5000), (some [0, 0, 0, 160, 80, 2], 11000),
      (some [0, 0, 0, 170, 80, 2], 13000)] 1000 14000 rfl rfl (by decide) (by decide)).2.2.1

end WeightCache

end ShareCompute.App
