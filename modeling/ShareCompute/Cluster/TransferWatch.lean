import ShareCompute.Cluster.Relay
import ShareCompute.Library.FloatFormat
import ShareCompute.Library.OrderedDict
import ShareCompute.Library.Segment
import Mathlib.Algebra.Order.BigOperators.Group.List
import Mathlib.Data.List.ReduceOption
import Mathlib.Data.Rat.Floor
import Mathlib.Tactic.Linarith

namespace ShareCompute.Cluster

open ShareCompute.Library OrderedDict

/-!
# The transfer watch

`run_log.py`, class `TransferWatch`: samples of cumulative counters come in, and `spans` says
when each series of counters did the bulk of its movement.  A call that raises has no result.
`observe_nodes` of `split_cluster.py` feeds it the counters of the workers.

* `Item.sample`, `Item.span` — what a sample adds to a series, and its span.
* `sample_tracks` — what a series knows after one more sample.

Counters are Python integers, of any size: the relay counts bytes, and lets only integers pass as
telemetry.  Thresholds and times are floats, told by their values; what is computed with floats is
rounded as in double precision, and an integer that a float is to be multiplied by may be too large
to be converted.
-/

/-! ### Numbers -/

/-- A finite float of Python, told by its value. -/
structure Number where
  value : ℚ
  isFloat : binary64.IsFloat value

/-- `float(n)`.  `none` is the `OverflowError` of an integer that is too large. -/
def toFloat (n : ℤ) : Option ℚ :=
  match binary64.result n with
  | .finite x => some x
  | .infinite _ => none

/-- `share * total`: a float is multiplied by an integer that is converted first. -/
def Number.times (share : Number) (total : ℤ) : Option Extended :=
  (toFloat total).map (fun total => binary64.result (share.value * total))

/-- `round(x, digits)` of the value of a float: half of a digit goes to the even side. -/
def round (x : ℚ) (digits : ℕ) : ℚ := roundEven (x * 10 ^ digits) / 10 ^ digits

/-! ### State -/

/-- The keyword arguments of `observe`: the counters of a group, by name. -/
abbrev Values := List (String × ℤ)

/-- A series: the counters at its baseline and at the last sample, when that was taken, the longest
    time between two samples, and how far the total had moved at the times it moved. -/
structure Item where
  base : Values
  last : Values
  seen : ℚ
  gap : Extended
  points : List (ℚ × ℤ)

/-- The watch with its two thresholds, which are floats as their default values are. -/
structure TransferWatch where
  low : Number
  high : Number
  /-- by group and node -/
  series : List ((String × String) × Item)
  stamps : List (String × ℚ)

/-- `TransferWatch(low, high)`, which has taken no sample yet. -/
def TransferWatch.init (low high : Number) : TransferWatch := ⟨low, high, [], []⟩

/-- The float `0.01`, the default of `low`. -/
def lowDefault : Number :=
  ⟨5764607523034235 * (2 : ℚ) ^ (-59 : ℤ), 5764607523034235, -59, by decide, by decide, by norm_num⟩

/-- The float `0.99`, the default of `high`. -/
def highDefault : Number :=
  ⟨8917127262193582 * (2 : ℚ) ^ (-53 : ℤ), 8917127262193582, -53, by decide, by decide, by norm_num⟩

/-! ### `observe` -/

/-- `observe`, for a series that has been sampled before. -/
def Item.sample (item : Item) (now : ℚ) (values : Values) : Option Item := do
  let item := { item with gap := item.gap.max (binary64.result (now - item.seen)), seen := now }
  if ← values.anyM (fun value => (item.last.lookup value.1).map (fun last => value.2 < last)) then
    return { item with base := values, last := values, points := [] }
  let changed ← values.anyM
    (fun value => (item.last.lookup value.1).map (fun last => value.2 ≠ last))
  if changed then
    let moved ← values.mapM
      (fun value => (item.base.lookup value.1).map (fun base => value.2 - base))
    return { item with points := item.points ++ [(now, moved.sum)], last := values }
  return { item with last := values }

/-- `observe(now, node, group, values)`; none where it raises. -/
def TransferWatch.observe (self : TransferWatch) (now : ℚ) (node group : String)
    (values : Values) : Option TransferWatch :=
  let key := (group, node)
  match self.series.lookup key with
  | none =>
      some { self with series := assign key ⟨values, values, now, .finite 0, []⟩ self.series }
  | some item => do
      let item ← item.sample now values
      return { self with series := assign key item self.series }

/-! ### `spans` -/

/-- A value of an entry; a number is told by its value. -/
inductive Field
  | text (text : String)
  | number (number : Extended)
deriving DecidableEq

/-- An entry of `spans`, a Python dictionary. -/
abbrev Entry := List (String × Field)

/-- What an iteration of `spans` computes for a series that has moved. -/
structure Span where
  name : String
  began : ℚ
  ended : ℚ
  resolutionMs : Extended
  firstStep : ℤ
  firstStepShare : ℚ
  moved : Values

/-- What an entry has besides the counters. -/
def Span.fields (span : Span) : Entry :=
  [("name", .text span.name), ("began", .number (.finite span.began)),
    ("ended", .number (.finite span.ended)), ("resolution_ms", .number span.resolutionMs),
    ("first_step", .number (.finite span.firstStep)),
    ("first_step_share", .number (.finite span.firstStepShare))]

/-- The value of a counter in an entry. -/
def counterField (moved : ℤ) : Field := .number (.finite moved)

/-- The dictionary that is put together with `**moved`: a counter with the name of a field takes
    its place. -/
def Span.entry (span : Span) : Entry :=
  (span.moved.map (fun value => (value.1, counterField value.2))).foldl
    (fun entry value => assign value.1 value.2 entry) span.fields

/-- `entry['began']`, which is a time or a counter of that name. -/
def Entry.began (entry : Entry) : ℚ :=
  match entry.lookup "began" with
  | some (.number (.finite began)) => began
  | _ => 0

/-- `min(time, until)`, if there is one, and else the time. -/
def clamp (until? : Option ℚ) (time : ℚ) : ℚ := until?.elim time (min time)

/-- `points[n - 1][1] if n else 0` -/
def Item.before (item : Item) (n : ℕ) : Option ℤ :=
  if n = 0 then some 0 else (item.points[n - 1]?).map Prod.snd

/-- An iteration of the loop of `spans`; a series without points is skipped. -/
def Item.span (item : Item) (low high : Number) (until? : Option ℚ) (name : String) :
    Option (Option Span) :=
  match item.points.getLast? with
  | none => some none
  | some (_, total) => do
      let lowTotal ← low.times total
      let first ← item.points.findIdx? (fun point => lowTotal.atMost point.2)
      let highTotal ← high.times total
      let last ← item.points.findIdx? (fun point => highTotal.atMost point.2)
      let began ← item.points[first]?
      let ended ← item.points[last]?
      let before ← item.before first
      let step := began.2 - before
      let moved ← item.last.mapM
        (fun value => (item.base.lookup value.1).map (fun base => (value.1, value.2 - base)))
      -- the division of `first_step_share`
      guard (total ≠ 0)
      return some
        { name := name
          began := clamp until? began.1
          ended := clamp until? ended.1
          resolutionMs :=
            binary64.lift (round · 1) (binary64.lift (· * 1000) item.gap)
          firstStep := step
          -- a step is at most the total, so that neither of the two roundings is infinite
          firstStepShare := binary64.rounded (round (binary64.rounded (step / total)) 3)
          moved := moved }

/-- The spans of the series that have one. -/
def TransferWatch.found (self : TransferWatch) (until? : Option ℚ) :
    Option (List ((String × String) × Span)) := do
  let found ← self.series.mapM
    (fun s => (s.2.span self.low self.high until? (s.1.1 ++ ":" ++ s.1.2)).map
      (fun span => span.map (fun span => (s.1, span))))
  return found.reduceOption

/-- `spans(until)`: an entry for each series that has moved; none where it raises. -/
def TransferWatch.spans (self : TransferWatch) (until? : Option ℚ) : Option (List Entry) := do
  let found ← self.found until?
  return (found.map (fun span => span.2.entry)).insertionSort (fun a b => a.began ≤ b.began)

/-! ### `observe_nodes` -/

/-- `observe_nodes`, for a node: the cache counters are sampled when a heartbeat has brought new
    ones, and stamped with its arrival. -/
def TransferWatch.observeNode (self : TransferWatch) (now : ℚ) (node : String) (record : Record) :
    Option TransferWatch := do
  let self ← self.observe now node "upload" [("to_worker", record.bytes.1)]
  match record.statsAt with
  | none => some self
  | some arrived =>
      if self.stamps.lookup node = some arrived then some self
      else
        let self := { self with stamps := assign node arrived self.stamps }
        self.observe arrived node "cache"
          [("hit", record.stats.cacheHitBytes), ("stored", record.stats.cacheStoredBytes)]

/-- `observe_nodes(now, nodes)`: two samples for each node, the second one when a new heartbeat has
    come. -/
def TransferWatch.observeNodes (self : TransferWatch) (now : ℚ) (nodes : List (String × Record)) :
    Option TransferWatch :=
  nodes.foldlM (fun self node => self.observeNode now node.1 node.2) self

/-- `observe_nodes`, again and again, each time with the records of that time. -/
def TransferWatch.poll (self : TransferWatch) (polls : List (ℚ × List (String × Record))) :
    Option TransferWatch :=
  polls.foldlM (fun self poll => self.observeNodes poll.1 poll.2) self

/-! ### Samples -/

/-- What a series is given at a time. -/
abbrev Sample := ℚ × Values

/-- The value of a counter, `0` where it is not named. -/
def Values.at (values : Values) (name : String) : ℤ := (values.lookup name).getD 0

/-- The counters of a sample taken together. -/
def Values.total (values : Values) : ℤ := (values.map Prod.snd).sum

/-- No counter of the later sample is below the earlier one. -/
def Advances (a b : Sample) : Prop := ∀ value ∈ b.2, Values.at a.2 value.1 ≤ value.2

/-- Whether one sample advances to the next can be computed. -/
instance : DecidableRel Advances := fun a b =>
  inferInstanceAs (Decidable (∀ value ∈ b.2, Values.at a.2 value.1 ≤ value.2))

/-- A call of `observe`, with its arguments. -/
structure Call where
  now : ℚ
  node : String
  group : String
  values : Values

/-- The series that a call adds a sample to. -/
def Call.key (call : Call) : String × String := (call.group, call.node)

/-- The samples of a series: when it was observed, and with which counters. -/
def samples (key : String × String) (calls : List Call) : List Sample :=
  (calls.filter (fun call => call.key = key)).map (fun call => (call.now, call.values))

/-- The calls one after the other, unless one of them raises. -/
def TransferWatch.observeAll (self : TransferWatch) (calls : List Call) : Option TransferWatch :=
  calls.foldlM (fun self call => self.observe call.now call.node call.group call.values) self

/-- A series has the same counters in every sample. -/
structure Uniform (names : List String) (samples : List Sample) : Prop where
  nodup : names.Nodup
  keys : ∀ sample ∈ samples, (sample.2.map Prod.fst).Perm names

/-- What a series has moved since its last baseline: since its first sample, or since the last one
    at which a counter went backwards. -/
def movement (samples : List Sample) (name : String) : ℤ :=
  match (segment Advances samples).head?, samples.getLast? with
  | some baseline, some last => Values.at last.2 name - Values.at baseline.2 name
  | _, _ => 0

/-- How much a series has moved since its last baseline. -/
def increase (samples : List Sample) : ℤ :=
  match (segment Advances samples).head?, samples.getLast? with
  | some baseline, some last => Values.total last.2 - Values.total baseline.2
  | _, _ => 0

/-! ### Totals -/

section

variable {names : List String} {values base : Values}

/-- The names of a sample are those of the baseline, in whatever order. -/
theorem mem_keys (hvalues : (values.map Prod.fst).Perm names)
    (hbase : (base.map Prod.fst).Perm names) :
    ∀ name ∈ values.map Prod.fst, name ∈ base.map Prod.fst := fun _ hname =>
  hbase.mem_iff.mpr (hvalues.mem_iff.mp hname)

/-- The total of the baseline is the sum of its values at the names of the sample. -/
theorem sum_at (hnames : names.Nodup) (hvalues : (values.map Prod.fst).Perm names)
    (hbase : (base.map Prod.fst).Perm names) :
    (values.map (fun value => base.at value.1)).sum = base.total :=
  (perm_map_lookup (hbase.nodup_iff.mpr hnames) (hvalues.trans hbase.symm) 0).sum_eq

/-- What the counters moved together is the difference of their totals. -/
theorem sum_sub (hnames : names.Nodup) (hvalues : (values.map Prod.fst).Perm names)
    (hbase : (base.map Prod.fst).Perm names) :
    (values.map (fun value => value.2 - base.at value.1)).sum = values.total - base.total := by
  have hsplit : ∀ values : Values, (values.map (fun value => value.2 - base.at value.1)).sum
      = values.total - (values.map (fun value => base.at value.1)).sum := by
    intro values
    induction values with
    | nil => simp [Values.total]
    | cons value values ih =>
      simp only [List.map_cons, List.sum_cons, Values.total] at ih ⊢
      rw [ih]
      ring
  rw [hsplit, sum_at hnames hvalues hbase]

/-- Counters that do not go backwards and do not all stand still have a larger total. -/
theorem total_lt (hnames : names.Nodup) (hvalues : (values.map Prod.fst).Perm names)
    (hbase : (base.map Prod.fst).Perm names)
    (hle : ∀ value ∈ values, base.at value.1 ≤ value.2)
    (hne : ∃ value ∈ values, value.2 ≠ base.at value.1) : base.total < values.total := by
  rw [← sum_at hnames hvalues hbase]
  refine List.sum_lt_sum _ _ hle ?_
  obtain ⟨value, hmem, hvalue⟩ := hne
  exact ⟨value, hmem, lt_of_le_of_ne (hle value hmem) (Ne.symm hvalue)⟩

/-- When no counter has moved, the totals are the same. -/
theorem total_eq (hnames : names.Nodup) (hvalues : (values.map Prod.fst).Perm names)
    (hbase : (base.map Prod.fst).Perm names) (heq : ∀ value ∈ values, value.2 = base.at value.1) :
    values.total = base.total := by
  rw [← sum_at hnames hvalues hbase, Values.total, List.map_congr_left heq]

end

/-! ### One more sample -/

/-- What a series knows of its samples. -/
structure Item.Tracks (item : Item) (samples : List Sample) : Prop where
  base : ∃ sample, (segment Advances samples).head? = some sample ∧ item.base = sample.2
  last : ∃ sample, samples.getLast? = some sample ∧ item.last = sample.2 ∧ item.seen = sample.1
  total_lt : item.points.Pairwise (fun p q => p.2 < q.2)
  total_pos : ∀ p ∈ item.points, 0 < p.2
  total : (item.points.getLast?.map Prod.snd).getD 0 = item.last.total - item.base.total
  time_le : item.points.Pairwise (fun p q => p.1 ≤ q.1)
  time_seen : ∀ p ∈ item.points, p.1 ≤ item.seen

/-- No point is beyond the last one. -/
theorem Item.Tracks.total_le {item : Item} {samples : List Sample} (h : item.Tracks samples) :
    ∀ p ∈ item.points, p.2 ≤ item.last.total - item.base.total := by
  intro p hp
  have htotal := h.total
  have hlt := h.total_lt
  cases hpoints : item.points using List.reverseRecOn with
  | nil => simp [hpoints] at hp
  | append_singleton points q =>
    rw [hpoints, List.getLast?_concat, Option.map_some, Option.getD_some] at htotal
    rw [hpoints] at hp hlt
    rw [← htotal]
    rcases List.mem_append.mp hp with hp | hp
    · exact ((List.pairwise_append.mp hlt).2.2 p hp q (List.mem_singleton_self q)).le
    · rw [List.mem_singleton.mp hp]

/-- The first sample is a baseline: nothing has moved yet. -/
theorem first_tracks (sample : Sample) :
    (⟨sample.2, sample.2, sample.1, .finite 0, []⟩ : Item).Tracks [sample] where
  base := ⟨sample, by rw [segment_eq_self Advances (.singleton sample)]; rfl, rfl⟩
  last := ⟨sample, rfl, rfl, rfl⟩
  total_lt := .nil
  total_pos := by simp
  total := by simp
  time_le := .nil
  time_seen := by simp

section

variable {names : List String} {item : Item} {values : Values}
  (hvalues : (values.map Prod.fst).Perm names) (hlast : (item.last.map Prod.fst).Perm names)

include hvalues hlast

/-- What is said of any counter of a sample and its last value can be decided counter by counter. -/
theorem anyM_last (p : String × ℤ → ℤ → Prop) [∀ value last, Decidable (p value last)] :
    values.anyM (fun value => (item.last.lookup value.1).map (fun last => decide (p value last)))
      = some (decide (∃ value ∈ values, p value (item.last.at value.1))) := by
  rw [anyM_lookup (mem_keys hvalues hlast) 0 (fun value last => decide (p value last))]
  congr 1
  rw [Bool.eq_iff_iff, List.any_eq_true, decide_eq_true_eq]
  simp only [decide_eq_true_eq]
  rfl

/-- A counter went backwards, so the series begins anew with this sample. -/
theorem sample_backwards (hback : ∃ value ∈ values, value.2 < item.last.at value.1) (now : ℚ) :
    item.sample now values
      = some ⟨values, values, now, item.gap.max (binary64.result (now - item.seen)), []⟩ := by
  have hless := anyM_last hvalues hlast (fun value last => value.2 < last)
  rw [decide_eq_true hback] at hless
  simp only [Item.sample, hless]
  rfl

/-- No counter went backwards, and they have all the values they had. -/
theorem sample_still (hstill : ∀ value ∈ values, value.2 = item.last.at value.1) (now : ℚ) :
    item.sample now values
      = some ⟨item.base, values, now, item.gap.max (binary64.result (now - item.seen)),
          item.points⟩ := by
  have hback : ¬ ∃ value ∈ values, value.2 < item.last.at value.1 := by
    rintro ⟨value, hmem, hlt⟩
    exact absurd (hstill value hmem) hlt.ne
  have hmoved : ¬ ∃ value ∈ values, value.2 ≠ item.last.at value.1 := by
    rintro ⟨value, hmem, hne⟩
    exact hne (hstill value hmem)
  have hless := anyM_last hvalues hlast (fun value last => value.2 < last)
  have hchanged := anyM_last hvalues hlast (fun value last => value.2 ≠ last)
  rw [decide_eq_false hback] at hless
  rw [decide_eq_false hmoved] at hchanged
  simp only [Item.sample, hless, hchanged]
  rfl

/-- No counter went backwards, and one of them moved. -/
theorem sample_moved (hnames : names.Nodup) (hbase : (item.base.map Prod.fst).Perm names)
    (hle : ∀ value ∈ values, item.last.at value.1 ≤ value.2)
    (hmoved : ∃ value ∈ values, value.2 ≠ item.last.at value.1) (now : ℚ) :
    item.sample now values
      = some ⟨item.base, values, now, item.gap.max (binary64.result (now - item.seen)),
          item.points ++ [(now, values.total - item.base.total)]⟩ := by
  have hback : ¬ ∃ value ∈ values, value.2 < item.last.at value.1 := by
    rintro ⟨value, hmem, hlt⟩
    exact absurd (hle value hmem) (not_le.mpr hlt)
  have hless := anyM_last hvalues hlast (fun value last => value.2 < last)
  have hchanged := anyM_last hvalues hlast (fun value last => value.2 ≠ last)
  rw [decide_eq_false hback] at hless
  rw [decide_eq_true hmoved] at hchanged
  have hpoint := mapM_lookup (mem_keys hvalues hbase) 0 (fun value base => value.2 - base)
  rw [← sum_sub hnames hvalues hbase]
  simp only [Item.sample, hless, hchanged, hpoint]
  rfl

end

/-- **One more sample** is taken without raising, and the series keeps track. -/
theorem sample_tracks {names : List String} {item : Item} {samples : List Sample} {sample : Sample}
    (h : item.Tracks samples) (huniform : Uniform names (samples ++ [sample]))
    (htime : ∀ before ∈ samples.getLast?, before.1 ≤ sample.1) :
    ∃ item', item.sample sample.1 sample.2 = some item' ∧ item'.Tracks (samples ++ [sample]) := by
  obtain ⟨baseline, hbaseline, hbase⟩ := h.base
  obtain ⟨last, hlast, hlastValues, hseen⟩ := h.last
  have hkeys : ∀ s ∈ samples, (s.2.map Prod.fst).Perm names := fun s hs =>
    huniform.keys s (List.mem_append_left _ hs)
  have hvalues := huniform.keys sample (by simp)
  have hlastKeys : (item.last.map Prod.fst).Perm names := by
    rw [hlastValues]
    exact hkeys last (List.mem_of_getLast? hlast)
  have hbaseKeys : (item.base.map Prod.fst).Perm names := by
    rw [hbase]
    exact hkeys baseline ((segment_suffix Advances samples).subset (List.mem_of_head? hbaseline))
  by_cases hback : ∃ value ∈ sample.2, value.2 < item.last.at value.1
  · refine ⟨_, sample_backwards hvalues hlastKeys hback sample.1, ?_⟩
    have hnot : ¬ Advances last sample := by
      obtain ⟨value, hmem, hlt⟩ := hback
      rw [hlastValues] at hlt
      exact fun hadvances => absurd (hadvances value hmem) (not_le.mpr hlt)
    have hsegment := segment_snoc_of_not Advances (Option.mem_def.mpr hlast) hnot
    exact {
      base := ⟨sample, by rw [hsegment]; rfl, rfl⟩
      last := ⟨sample, by simp, rfl, rfl⟩
      total_lt := .nil
      total_pos := by simp
      total := by simp
      time_le := .nil
      time_seen := by simp }
  · have hle : ∀ value ∈ sample.2, item.last.at value.1 ≤ value.2 := fun value hmem =>
      not_lt.mp fun hlt => hback ⟨value, hmem, hlt⟩
    have hsegment : segment Advances (samples ++ [sample])
        = segment Advances samples ++ [sample] := by
      refine segment_snoc_of_rel Advances fun b hb => ?_
      obtain rfl : last = b := Option.some.inj (hlast.symm.trans hb)
      rw [hlastValues] at hle
      exact hle
    have hhead : (segment Advances (samples ++ [sample])).head? = some baseline := by
      rw [hsegment, List.head?_append, hbaseline, Option.some_or]
    have hseen' : item.seen ≤ sample.1 := hseen ▸ htime last hlast
    by_cases hmoved : ∃ value ∈ sample.2, value.2 ≠ item.last.at value.1
    · refine ⟨_, sample_moved hvalues hlastKeys huniform.nodup hbaseKeys hle hmoved sample.1, ?_⟩
      -- the new point is beyond all others
      have hlt := total_lt huniform.nodup hvalues hlastKeys hle hmoved
      have hnonneg : 0 ≤ item.last.total - item.base.total := by
        rw [← h.total]
        cases hlast? : item.points.getLast? with
        | none => exact le_refl _
        | some point => exact (h.total_pos point (List.mem_of_getLast? hlast?)).le
      exact {
        base := ⟨baseline, hhead, hbase⟩
        last := ⟨sample, by simp, rfl, rfl⟩
        total_lt := by
          refine List.pairwise_append.mpr ⟨h.total_lt, List.pairwise_singleton _ _, ?_⟩
          intro p hp q hq
          have hle := h.total_le p hp
          rw [List.mem_singleton.mp hq]
          show p.2 < sample.2.total - item.base.total
          linarith only [hle, hlt]
        total_pos := by
          refine List.forall_mem_append.mpr ⟨h.total_pos, List.forall_mem_singleton.mpr ?_⟩
          show 0 < sample.2.total - item.base.total
          linarith only [hnonneg, hlt]
        total := by simp
        time_le := by
          refine List.pairwise_append.mpr ⟨h.time_le, List.pairwise_singleton _ _, ?_⟩
          intro p hp q hq
          rw [List.mem_singleton.mp hq]
          exact (h.time_seen p hp).trans hseen'
        time_seen := List.forall_mem_append.mpr
          ⟨fun p hp => (h.time_seen p hp).trans hseen', List.forall_mem_singleton.mpr le_rfl⟩ }
    · have hstill : ∀ value ∈ sample.2, value.2 = item.last.at value.1 := fun value hmem =>
        not_not.mp fun hne => hmoved ⟨value, hmem, hne⟩
      refine ⟨_, sample_still hvalues hlastKeys hstill sample.1, ?_⟩
      exact {
        base := ⟨baseline, hhead, hbase⟩
        last := ⟨sample, by simp, rfl, rfl⟩
        total_lt := h.total_lt
        total_pos := h.total_pos
        total := by
          rw [h.total, total_eq huniform.nodup hvalues hlastKeys hstill]
        time_le := h.time_le
        time_seen := fun p hp => (h.time_seen p hp).trans hseen' }

end ShareCompute.Cluster
