import ShareCompute.Cluster.TransferWatch

namespace ShareCompute.Cluster

open ShareCompute.Library FloatFormat OrderedDict

/-!
# What the transfer watch measures

A share of a total is computed as a float: the total is converted, and may be too large for that,
and what the conversion adds to it can put the whole of it out of reach.

* `Number.Covers`, `times_le_iff` — the totals of which a share can be found.
* `span_measures`, `span_raises` — the span of a series, once it has moved since its last baseline,
  or the exception in its place.
* `observeAll_tracks`, `found_measures` — the series of a watch after any calls of `observe`, and
  the spans it tells.
* `foldlM_observeNode` — what `observe_nodes` samples are calls of `observe`.
* `watch_measures` — the watch measures exactly the movement, unless a total is beyond a float.
-/

/-! ### Shares -/

/-- A total of which a share can be found: it can be converted to a float, and if all of it is
    asked for, the conversion does not round it up. -/
structure Number.Covers (share : Number) (total : ℤ) : Prop where
  converts : (total : ℚ) < binary64.overflow
  not_above : share.value = 1 → binary64.rounded total ≤ total

/-- An integer that is not too large is converted to the nearest float. -/
theorem toFloat_of_lt {total : ℤ} (hpos : 0 < total) (h : (total : ℚ) < binary64.overflow) :
    toFloat total = some (binary64.rounded total) := by
  rw [toFloat, result_of_lt (Int.cast_nonneg hpos.le) h]

/-- An integer that is too large raises. -/
theorem toFloat_of_overflow {total : ℤ} (hpos : 0 < total) (h : binary64.overflow ≤ total) :
    toFloat total = none := by
  have hle : (2 : ℚ) ^ binary64.maxExp ≤ binary64.rounded total :=
    not_lt.mp (mt (rounded_lt_iff (Int.cast_nonneg hpos.le)).mp (not_lt.mpr h))
  rw [toFloat, FloatFormat.result, if_pos hle]

section

variable {share : Number} {total : ℤ} (hnonneg : 0 ≤ share.value) (hone : share.value ≤ 1)
  (hpos : 0 < total)

include hnonneg hone hpos

/-- A share of a total that can be converted is a finite float. -/
theorem times_eq (h : (total : ℚ) < binary64.overflow) :
    share.times total
      = some (.finite (binary64.rounded (share.value * binary64.rounded total))) := by
  have hrounded := rounded_nonneg (F := binary64) (Int.cast_nonneg (R := ℚ) hpos.le)
  have hproduct : 0 ≤ share.value * binary64.rounded total := mul_nonneg hnonneg hrounded
  have hlt : share.value * binary64.rounded total < binary64.overflow := by
    refine (rounded_lt_iff hproduct).mp ?_
    calc binary64.rounded (share.value * binary64.rounded total)
        ≤ binary64.rounded (binary64.rounded total) :=
          rounded_mono hproduct (mul_le_of_le_one_left hrounded hone)
      _ = binary64.rounded total := rounded_of_isFloat (isFloat_rounded _)
      _ < _ := (rounded_lt_iff (Int.cast_nonneg hpos.le)).mpr h
  rw [Number.times, toFloat_of_lt hpos h, Option.map_some, result_of_lt hproduct hlt]

/-- The share does not exceed the total unless it is the whole of one that was rounded up. -/
theorem times_le_iff :
    binary64.rounded (share.value * binary64.rounded total) ≤ total
      ↔ (share.value = 1 → binary64.rounded total ≤ total) := by
  constructor
  · intro hle hvalue
    rwa [hvalue, one_mul, rounded_of_isFloat (isFloat_rounded _)] at hle
  · intro hall
    rcases hone.lt_or_eq with hlt | heq
    · have hge : (1 : ℚ) ≤ binary64.rounded total := by
        have hfloat : binary64.IsFloat ((2 : ℚ) ^ (0 : ℤ)) := isFloat_zpow (by decide)
        rw [zpow_zero] at hfloat
        rw [← rounded_of_isFloat hfloat]
        exact rounded_mono zero_le_one (by exact_mod_cast hpos)
      have hshort := rounded_mul_lt share.isFloat hnonneg hlt hge
      -- there is no float between the total and what it is converted to
      by_contra hgt
      have hmono := rounded_mono (F := binary64) (Int.cast_nonneg hpos.le) (not_le.mp hgt).le
      rw [rounded_of_isFloat (isFloat_rounded _)] at hmono
      exact absurd hshort (not_lt.mpr hmono)
    · rw [heq, one_mul, rounded_of_isFloat (isFloat_rounded _)]
      exact hall heq

end

/-! ### Spans -/

/-- What the span of a series says of its samples. -/
structure Measures (names : List String) (samples : List Sample) (until? : Option ℚ)
    (span : Span) : Prop where
  keys : (span.moved.map Prod.fst).Perm names
  moved : ∀ name ∈ names, span.moved.lookup name = some (movement samples name)
  total : (span.moved.map Prod.snd).sum = increase samples
  order : span.began ≤ span.ended
  clamped : ∀ latest ∈ until?, span.ended ≤ latest
  step_pos : 0 < span.firstStep
  step_le : span.firstStep ≤ increase samples

/-- Times that are cut off at a bound stay in their order. -/
theorem clamp_mono (until? : Option ℚ) {a b : ℚ} (h : a ≤ b) :
    clamp until? a ≤ clamp until? b := by
  cases until? with
  | none => exact h
  | some latest => exact min_le_min_right latest h

/-- A time that is cut off is not behind the bound. -/
theorem clamp_le {until? : Option ℚ} {latest : ℚ} (h : latest ∈ until?) (time : ℚ) :
    clamp until? time ≤ latest := by
  rw [Option.mem_def.mp h]
  exact min_le_right time latest

section

variable {item : Item} {samples : List Sample} (h : item.Tracks samples)

include h

/-- The increase of a series is what its last sample has more than its baseline. -/
theorem increase_eq : increase samples = item.last.total - item.base.total := by
  obtain ⟨baseline, hbaseline, hbase⟩ := h.base
  obtain ⟨last, hlast, hlastValues, -⟩ := h.last
  rw [increase, hbaseline, hlast, hbase, hlastValues]

/-- The movement of a counter is what its last value is more than that of the baseline. -/
theorem movement_eq (name : String) :
    movement samples name = item.last.at name - item.base.at name := by
  obtain ⟨baseline, hbaseline, hbase⟩ := h.base
  obtain ⟨last, hlast, hlastValues, -⟩ := h.last
  rw [movement, hbaseline, hlast, hbase, hlastValues]

/-- A series without points has not moved. -/
theorem increase_eq_zero_iff : increase samples = 0 ↔ item.points.getLast? = none := by
  rw [increase_eq h, ← h.total]
  cases hlast : item.points.getLast? with
  | none => simp
  | some point => simpa using (h.total_pos point (List.mem_of_getLast? hlast)).ne'

omit h in
/-- A share that is not above the total is reached, and the points before the first that does are
    short of it. -/
theorem exists_findIdx? {share : ℚ} {total : ℤ} (hshare : share ≤ total)
    (htotal : (item.points.getLast?).map Prod.snd = some total) :
    ∃ n, item.points.findIdx? (fun point => (Extended.finite share).atMost point.2) = some n ∧
      ∃ hn : n < item.points.length, share ≤ item.points[n].2 ∧
        ∀ (m : ℕ) (hm : m < n), (item.points[m].2 : ℚ) < share := by
  obtain ⟨point, hpoint, rfl⟩ := Option.map_eq_some_iff.mp htotal
  have hmem := List.mem_of_getLast? hpoint
  have hsome := List.findIdx?_eq_some_of_exists
    (p := fun p : ℚ × ℤ => (Extended.finite share).atMost p.2)
    ⟨point, hmem, decide_eq_true hshare⟩
  obtain ⟨hn, hp, hbefore⟩ := List.findIdx?_eq_some_iff_getElem.mp hsome
  refine ⟨_, hsome, hn, of_decide_eq_true hp, fun m hm => ?_⟩
  exact not_le.mp fun hle => hbefore m hm (decide_eq_true hle)

/-- A share above the total is never reached. -/
theorem findIdx?_eq_none {share : ℚ} {total : ℤ} (hshare : (total : ℚ) < share)
    (hincrease : increase samples = total) :
    item.points.findIdx? (fun point => (Extended.finite share).atMost point.2) = none := by
  rw [List.findIdx?_eq_none_iff]
  intro point hpoint
  have hle : (point.2 : ℚ) ≤ total := by
    rw [← hincrease, increase_eq h]
    exact Int.cast_le.mpr (h.total_le point hpoint)
  exact decide_eq_false (not_le.mpr (hle.trans_lt hshare))

/-- The step to a point is the distance from the point before it, or from zero. -/
theorem exists_before {n : ℕ} (hn : n < item.points.length) :
    ∃ before, item.before n = some before ∧ 0 ≤ before ∧ before < item.points[n].2 := by
  unfold Item.before
  by_cases hzero : n = 0
  · exact ⟨0, if_pos hzero, le_refl 0, h.total_pos _ (List.getElem_mem hn)⟩
  · have hprevious : n - 1 < item.points.length := by omega
    refine ⟨item.points[n - 1].2, ?_, (h.total_pos _ (List.getElem_mem hprevious)).le, ?_⟩
    · rw [if_neg hzero, List.getElem?_eq_getElem hprevious]
      rfl
    · exact List.pairwise_iff_getElem.mp h.total_lt (n - 1) n hprevious hn (by omega)

/-- The baseline of a series has its counters. -/
theorem base_keys {names : List String} (huniform : Uniform names samples) :
    (item.base.map Prod.fst).Perm names := by
  obtain ⟨baseline, hbaseline, hbase⟩ := h.base
  rw [hbase]
  exact huniform.keys baseline
    ((segment_suffix Advances samples).subset (List.mem_of_head? hbaseline))

/-- The last sample of a series has its counters. -/
theorem last_keys {names : List String} (huniform : Uniform names samples) :
    (item.last.map Prod.fst).Perm names := by
  obtain ⟨last, hlast, hlastValues, -⟩ := h.last
  rw [hlastValues]
  exact huniform.keys last (List.mem_of_getLast? hlast)

/-- What is told of a counter that has moved is its movement. -/
theorem lookup_moved {names : List String} (huniform : Uniform names samples) {counter : String}
    (hcounter : counter ∈ names) :
    (item.last.map (fun value => (value.1, value.2 - item.base.at value.1))).lookup counter
      = some (movement samples counter) := by
  have hlastKeys := last_keys h huniform
  obtain ⟨value, hvalue⟩ := Option.isSome_iff_exists.mp
    (lookup_isSome_iff.mpr (hlastKeys.mem_iff.mpr hcounter))
  have hnodup : ((item.last.map (fun value => (value.1, value.2 - item.base.at value.1))).map
      Prod.fst).Nodup := by
    rw [List.map_map]
    exact hlastKeys.nodup_iff.mpr huniform.nodup
  have hat : item.last.at counter = value := by
    rw [Values.at, hvalue]
    rfl
  rw [lookup_of_mem hnodup (List.mem_map_of_mem (mem_of_lookup hvalue)), movement_eq h, hat]

/-- The points of a series come in the order of time. -/
theorem time_le_of_le {n m : ℕ} (hle : n ≤ m) (hn : n < item.points.length)
    (hm : m < item.points.length) : item.points[n].1 ≤ item.points[m].1 := by
  rcases hle.eq_or_lt with heq | hlt
  · subst heq
    exact le_refl _
  · exact List.pairwise_iff_getElem.mp h.time_le n m hn hm hlt

/-- A series that has not moved is skipped. -/
theorem span_skips (low high : Number) (until? : Option ℚ) (name : String)
    (hzero : increase samples = 0) : item.span low high until? name = some none := by
  rw [Item.span, (increase_eq_zero_iff h).mp hzero]

/-- The last point of a series that has moved is its increase, which is positive. -/
theorem exists_getLast? (hmoved : increase samples ≠ 0) :
    ∃ time, item.points.getLast? = some (time, increase samples) ∧ 0 < increase samples := by
  obtain ⟨point, hpoint⟩ := Option.ne_none_iff_exists'.mp
    (mt (increase_eq_zero_iff h).mpr hmoved)
  have hincrease : increase samples = point.2 := by
    rw [increase_eq h, ← h.total, hpoint]
    rfl
  rw [hincrease]
  exact ⟨point.1, hpoint, h.total_pos point (List.mem_of_getLast? hpoint)⟩

section

variable {low high : Number} (hlow : 0 ≤ low.value) (hle : low.value ≤ high.value)
  (hhigh : high.value ≤ 1)

include hlow hle hhigh

/-- **The exception** of a series whose increase is beyond a float. -/
theorem span_raises (until? : Option ℚ) (name : String) (hmoved : increase samples ≠ 0)
    (hcovers : ¬ high.Covers (increase samples)) : item.span low high until? name = none := by
  obtain ⟨time, hlast, hpos⟩ := exists_getLast? h hmoved
  simp only [Item.span, hlast]
  by_cases hconverts : (increase samples : ℚ) < binary64.overflow
  · have hnot : (increase samples : ℚ)
        < binary64.rounded (high.value * binary64.rounded (increase samples)) := by
      refine not_le.mp (mt (times_le_iff (hlow.trans hle) hhigh hpos).mp ?_)
      exact fun hall => hcovers ⟨hconverts, hall⟩
    rw [times_eq hlow (hle.trans hhigh) hpos hconverts, times_eq (hlow.trans hle) hhigh hpos
      hconverts]
    simp only [Option.bind_eq_bind, Option.bind_some, findIdx?_eq_none h hnot rfl,
      Option.bind_none, Option.bind_fun_none]
  · rw [Number.times, toFloat_of_overflow hpos (not_lt.mp hconverts)]
    rfl

/-- **The span** of a series that has moved. -/
theorem span_measures {names : List String} (huniform : Uniform names samples)
    (until? : Option ℚ) (name : String) (hmoved : increase samples ≠ 0)
    (hcovers : high.Covers (increase samples)) :
    ∃ span, item.span low high until? name = some (some span) ∧ span.name = name ∧
      Measures names samples until? span := by
  have hbaseKeys := base_keys h huniform
  have hlastKeys := last_keys h huniform
  obtain ⟨time, hpoint, hpos⟩ := exists_getLast? h hmoved
  have htotal : (item.points.getLast?).map Prod.snd = some (increase samples) := by
    rw [hpoint]
    rfl
  have hhighNonneg := hlow.trans hle
  have hlowTimes := times_eq hlow (hle.trans hhigh) hpos hcovers.converts
  have hhighTimes := times_eq hhighNonneg hhigh hpos hcovers.converts
  have hrounded := rounded_nonneg (F := binary64) (Int.cast_nonneg (R := ℚ) hpos.le)
  have hhighReached := (times_le_iff hhighNonneg hhigh hpos).mpr hcovers.not_above
  -- rounding keeps the order of the two shares
  have hshares : binary64.rounded (low.value * binary64.rounded (increase samples))
      ≤ binary64.rounded (high.value * binary64.rounded (increase samples)) :=
    rounded_mono (mul_nonneg hlow hrounded) (mul_le_mul_of_nonneg_right hle hrounded)
  obtain ⟨first, hfirst, hlt, hreached, hbefore⟩ :=
    exists_findIdx? (hshares.trans hhighReached) htotal
  obtain ⟨bulk, hbulk, hlt', hreached', -⟩ := exists_findIdx? hhighReached htotal
  -- what has reached the high share has reached the low one
  have hfirst_le : first ≤ bulk := by
    by_contra hgt
    have hshort := hbefore bulk (not_le.mp hgt)
    linarith only [hshort, hreached', hshares]
  have hpoint_le : item.points[first].2 ≤ increase samples := by
    rw [increase_eq h]
    exact h.total_le _ (List.getElem_mem hlt)
  have hordered := time_le_of_le h hfirst_le hlt hlt'
  obtain ⟨before, hbefore, hbefore_nonneg, hbefore_lt⟩ := exists_before h hlt
  have hvalues := mapM_lookup (mem_keys hlastKeys hbaseKeys) 0
    (fun value base => (value.1, value.2 - base))
  have hspan : item.span low high until? name = some (some
      { name := name
        began := clamp until? item.points[first].1
        ended := clamp until? item.points[bulk].1
        resolutionMs := binary64.lift (round · 1) (binary64.lift (· * 1000) item.gap)
        firstStep := item.points[first].2 - before
        firstStepShare := binary64.rounded (round (binary64.rounded
          (((item.points[first].2 - before : ℤ) : ℚ) / (increase samples : ℚ))) 3)
        moved := item.last.map (fun value => (value.1, value.2 - item.base.at value.1)) }) := by
    have hguard : (guard (increase samples ≠ 0) : Option Unit) = some () := if_pos hpos.ne'
    simp only [Item.span, hpoint, hlowTimes, hhighTimes, hfirst, hbulk,
      List.getElem?_eq_getElem hlt, List.getElem?_eq_getElem hlt', hbefore, hvalues, hguard,
      Option.bind_eq_bind, Option.bind_some]
    rfl
  refine ⟨_, hspan, rfl, ?_⟩
  exact {
    keys := by
      rw [List.map_map]
      exact hlastKeys
    moved := fun counter hcounter => lookup_moved h huniform hcounter
    total := by
      rw [List.map_map, increase_eq h]
      exact sum_sub huniform.nodup hlastKeys hbaseKeys
    order := clamp_mono until? hordered
    clamped := fun latest hlatest => clamp_le hlatest _
    step_pos := sub_pos.mpr hbefore_lt
    step_le := by
      show item.points[first].2 - before ≤ increase samples
      linarith only [hpoint_le, hbefore_nonneg] }

end

end

/-! ### Runs -/

/-- The calls of each series have its counters, and come in the order of time. -/
structure WellFed (names : String × String → List String) (calls : List Call) : Prop where
  uniform : ∀ key, samples key calls ≠ [] → Uniform (names key) (samples key calls)
  ordered : ∀ key, (samples key calls).Pairwise (fun a b => a.1 ≤ b.1)

/-- What the watch knows of its calls. -/
structure TransferWatch.Tracks (watch : TransferWatch) (calls : List Call) : Prop where
  nodup : (watch.series.map Prod.fst).Nodup
  absent : ∀ key, watch.series.lookup key = none ↔ samples key calls = []
  tracks : ∀ key item, watch.series.lookup key = some item → item.Tracks (samples key calls)

/-- One call more adds its sample to its own series, and none to the others. -/
theorem samples_snoc (key : String × String) (calls : List Call) (call : Call) :
    samples key (calls ++ [call])
      = samples key calls ++ if call.key = key then [(call.now, call.values)] else [] := by
  rw [samples, List.filter_append, List.map_append, List.filter_singleton, ← samples]
  by_cases h : call.key = key <;> simp [h]

/-- Calls that feed every series well do so up to any point. -/
theorem WellFed.init {names : String × String → List String} {calls : List Call} {call : Call}
    (h : WellFed names (calls ++ [call])) : WellFed names calls where
  uniform key hne := by
    have hall := h.uniform key (by rw [samples_snoc]; simp [hne])
    rw [samples_snoc] at hall
    exact ⟨hall.nodup, fun sample hsample => hall.keys sample (List.mem_append_left _ hsample)⟩
  ordered key := by
    have hall := h.ordered key
    rw [samples_snoc] at hall
    exact (List.pairwise_append.mp hall).1

/-- The series of a call is written, and the others stay as they are. -/
theorem tracks_assign {self : TransferWatch} {calls : List Call} {call : Call}
    (h : self.Tracks calls) {item : Item}
    (hitem : item.Tracks (samples call.key (calls ++ [call]))) :
    { self with series := assign call.key item self.series }.Tracks (calls ++ [call]) := by
  have hsamples : ∀ key, key ≠ call.key → samples key (calls ++ [call]) = samples key calls := by
    intro key hkey
    rw [samples_snoc, if_neg (Ne.symm hkey), List.append_nil]
  refine ⟨nodup_assign h.nodup _ _, fun key => ?_, fun key item' hlookup => ?_⟩
  · show (assign call.key item self.series).lookup key = none ↔ _
    rw [lookup_assign]
    by_cases hkey : key = call.key
    · rw [if_pos hkey, samples_snoc, hkey, if_pos rfl]
      simp
    · rw [if_neg hkey, hsamples key hkey]
      exact h.absent key
  · rw [lookup_assign] at hlookup
    by_cases hkey : key = call.key
    · rw [if_pos hkey] at hlookup
      rw [hkey, ← Option.some.inj hlookup]
      exact hitem
    · rw [if_neg hkey] at hlookup
      rw [hsamples key hkey]
      exact h.tracks key item' hlookup

/-- One call is taken without raising, and the series go on tracking the calls. -/
theorem observe_tracks {names : String × String → List String} {self : TransferWatch}
    {calls : List Call} {call : Call} (h : self.Tracks calls)
    (hfed : WellFed names (calls ++ [call])) :
    ∃ series, self.observe call.now call.node call.group call.values
        = some { self with series := series } ∧
      { self with series := series }.Tracks (calls ++ [call]) := by
  have hsnoc := samples_snoc call.key calls call
  rw [if_pos rfl] at hsnoc
  cases hlookup : self.series.lookup call.key with
  | none =>
    have hlookup' : self.series.lookup (call.group, call.node) = none := hlookup
    refine ⟨_, by simp only [TransferWatch.observe, hlookup']; rfl, tracks_assign h ?_⟩
    rw [hsnoc, (h.absent call.key).mp hlookup]
    exact first_tracks (call.now, call.values)
  | some item =>
    have hlookup' : self.series.lookup (call.group, call.node) = some item := hlookup
    have huniform := hfed.uniform call.key (by rw [hsnoc]; simp)
    have hordered := hfed.ordered call.key
    rw [hsnoc] at huniform hordered
    obtain ⟨item', hsample, htracks⟩ := sample_tracks (h.tracks call.key item hlookup) huniform
      (fun before hbefore => (List.pairwise_append.mp hordered).2.2 before
        (List.mem_of_getLast? hbefore) _ (List.mem_singleton_self _))
    refine ⟨assign call.key item' self.series, ?_, tracks_assign h (by rw [hsnoc]; exact htracks)⟩
    simp only [TransferWatch.observe, hlookup', hsample]
    rfl

/-- Every call is taken without raising, by induction over the calls. -/
theorem observeAll_tracks {names : String × String → List String} (low high : Number)
    {calls : List Call} (hfed : WellFed names calls) :
    ∃ series, (TransferWatch.init low high).observeAll calls = some ⟨low, high, series, []⟩ ∧
      (⟨low, high, series, []⟩ : TransferWatch).Tracks calls := by
  induction calls using List.reverseRecOn with
  | nil => exact ⟨[], rfl, by simp, fun key => by simp [samples], by simp⟩
  | append_singleton calls call ih =>
    obtain ⟨series, hrun, htracks⟩ := ih hfed.init
    obtain ⟨series', hobserve, htracks'⟩ := observe_tracks htracks hfed
    refine ⟨series', ?_, htracks'⟩
    rw [TransferWatch.observeAll, List.foldlM_append, ← TransferWatch.observeAll, hrun]
    simpa using hobserve

/-- What an iteration of `spans` says of a series. -/
def Spans (names : String × String → List String) (calls : List Call) (until? : Option ℚ)
    (key : String × String) (span? : Option ((String × String) × Span)) : Prop :=
  if increase (samples key calls) = 0 then span? = none
  else ∃ span, span? = some (key, span) ∧ span.name = key.1 ++ ":" ++ key.2 ∧
    Measures (names key) (samples key calls) until? span

/-- The spans that are found are those of the series that moved. -/
theorem found_of_spans {names : String × String → List String} {calls : List Call}
    {until? : Option ℚ} {series : List ((String × String) × Item)}
    {spans : List (Option ((String × String) × Span))}
    (h : List.Forall₂ (fun s => Spans names calls until? s.1) series spans) :
    spans.reduceOption.map Prod.fst
        = (series.map Prod.fst).filter (fun key => increase (samples key calls) ≠ 0) ∧
      ∀ key span, (key, span) ∈ spans.reduceOption → span.name = key.1 ++ ":" ++ key.2 ∧
        Measures (names key) (samples key calls) until? span := by
  induction h with
  | nil => simp
  | @cons s span? series spans hspan h ih =>
    rw [Spans] at hspan
    split at hspan
    case isTrue hzero =>
      subst hspan
      rw [List.reduceOption_cons_of_none, List.map_cons, List.filter_cons_of_neg (by simp [hzero])]
      exact ih
    case isFalse hmoved =>
      obtain ⟨span, rfl, hname, hmeasures⟩ := hspan
      rw [List.reduceOption_cons_of_some, List.map_cons, List.map_cons,
        List.filter_cons_of_pos (by simp [hmoved]), ih.1]
      refine ⟨rfl, fun key span' hmem => ?_⟩
      rcases List.mem_cons.mp hmem with heq | hmem
      · obtain ⟨rfl, rfl⟩ := Prod.mk.inj heq
        exact ⟨hname, hmeasures⟩
      · exact ih.2 key span' hmem

/-- What every series has moved since its last baseline is within a float. -/
def Covered (high : Number) (calls : List Call) : Prop :=
  ∀ key, increase (samples key calls) ≠ 0 → high.Covers (increase (samples key calls))

/-- The spans of a watch that knows its calls. -/
theorem found_measures {names : String × String → List String} {self : TransferWatch}
    {calls : List Call} (h : self.Tracks calls) (hfed : WellFed names calls)
    (hlow : 0 ≤ self.low.value) (hle : self.low.value ≤ self.high.value)
    (hhigh : self.high.value ≤ 1) (until? : Option ℚ)
    (hcovers : Covered self.high calls) :
    ∃ found, self.found until? = some found ∧ (found.map Prod.fst).Nodup ∧
      (∀ key, key ∈ found.map Prod.fst ↔ increase (samples key calls) ≠ 0) ∧
      ∀ key span, (key, span) ∈ found → span.name = key.1 ++ ":" ++ key.2 ∧
        Measures (names key) (samples key calls) until? span := by
  have hturn : ∀ s ∈ self.series, ∃ span?,
      ((s.2.span self.low self.high until? (s.1.1 ++ ":" ++ s.1.2)).map
        (fun span => span.map (fun span => (s.1, span)))) = some span? ∧
      Spans names calls until? s.1 span? := by
    intro s hs
    have htracks := h.tracks s.1 s.2 (lookup_of_mem h.nodup hs)
    unfold Spans
    -- a series that has not grown gives no span, and raises nothing
    by_cases hzero : increase (samples s.1 calls) = 0
    · exact ⟨none, by rw [span_skips htracks _ _ _ _ hzero]; rfl, by rw [if_pos hzero]⟩
    · have hne : samples s.1 calls ≠ [] := by
        intro hnil
        rw [hnil] at hzero
        exact hzero rfl
      obtain ⟨span, hspan, hname, hmeasures⟩ := span_measures htracks hlow hle hhigh
        (hfed.uniform s.1 hne) until? (s.1.1 ++ ":" ++ s.1.2) hzero (hcovers s.1 hzero)
      refine ⟨some (s.1, span), by rw [hspan]; rfl, ?_⟩
      rw [if_neg hzero]
      exact ⟨span, rfl, hname, hmeasures⟩
  -- no series raises, so the log has its list
  obtain ⟨spans, hspans, hall⟩ := exists_mapM hturn
  obtain ⟨hkeys, hmeasures⟩ := found_of_spans hall
  refine ⟨spans.reduceOption, by rw [TransferWatch.found, hspans]; rfl, ?_, fun key => ?_,
    hmeasures⟩
  · rw [hkeys]
    exact h.nodup.filter _
  · rw [hkeys, List.mem_filter, decide_eq_true_eq]
    refine and_iff_right_of_imp fun hmoved => ?_
    rw [← lookup_isSome_iff, Option.isSome_iff_ne_none, Ne, h.absent]
    intro hnil
    rw [hnil] at hmoved
    exact hmoved rfl

/-! ### Entries -/

/-- A counter is found under its name, and a field unless a counter has its name. -/
theorem lookup_entry {names : List String} {samples : List Sample} {until? : Option ℚ} {span : Span}
    (hnames : names.Nodup) (h : Measures names samples until? span) (key : String) :
    span.entry.lookup key
      = ((span.moved.lookup key).map counterField).or (span.fields.lookup key) := by
  have hmap : ∀ values : Values, (values.map (fun value => (value.1, counterField value.2))).lookup
      key = (values.lookup key).map counterField := by
    intro values
    induction values with
    | nil => rfl
    | cons value values ih =>
      rw [List.map_cons, lookup_cons, lookup_cons, ih]
      split <;> rfl
  have hnodup : ((span.moved.map (fun value => (value.1, counterField value.2))).map
      Prod.fst).Nodup := by
    rw [List.map_map]
    exact h.keys.nodup_iff.mpr hnames
  rw [Span.entry, lookup_foldl_assign hnodup, hmap]

/-! ### The calls of `observe_nodes` -/

/-- The record of a node, at the time it is looked at. -/
structure Reading where
  now : ℚ
  node : String
  record : Record

/-- What a list of polls reads, node by node. -/
def readings (polls : List (ℚ × List (String × Record))) : List Reading :=
  polls.flatMap (fun poll => poll.2.map (fun node => ⟨poll.1, node.1, node.2⟩))

/-- The sample of the upload that a reading gives. -/
def Reading.upload (r : Reading) : Call :=
  ⟨r.now, r.node, "upload", [("to_worker", r.record.bytes.1)]⟩

/-- The sample of the cache that a reading gives, at the time at which the heartbeat arrived. -/
def Reading.cache (r : Reading) (arrived : ℚ) : Call :=
  ⟨arrived, r.node, "cache",
    [("hit", r.record.stats.cacheHitBytes), ("stored", r.record.stats.cacheStoredBytes)]⟩

/-- The arrival of the counters of a reading, if they have not been sampled. -/
def Reading.fresh (r : Reading) (stamps : List (String × ℚ)) : Option ℚ :=
  r.record.statsAt.filter (fun arrived => stamps.lookup r.node ≠ some arrived)

/-- The calls of `observe` for some readings. -/
def readingCalls : List (String × ℚ) → List Reading → List Call
  | _, [] => []
  | stamps, r :: rs =>
      match r.fresh stamps with
      | none => r.upload :: readingCalls stamps rs
      | some arrived =>
          r.upload :: r.cache arrived :: readingCalls (assign r.node arrived stamps) rs

/-- `observe` neither reads nor writes the stamps. -/
theorem observe_stamps (self : TransferWatch) (stamps : List (String × ℚ)) (call : Call) :
    ({ self with stamps := stamps } : TransferWatch).observe call.now call.node call.group
        call.values
      = (self.observe call.now call.node call.group call.values).map
          (fun watch => { watch with stamps := stamps }) := by
  simp only [TransferWatch.observe]
  split
  case h_1 => rfl
  case h_2 item _ =>
    cases item.sample call.now call.values with
    | none => rfl
    | some item' => rfl

/-- An observation does not touch the stamps of the heartbeats. -/
theorem stamps_of_observe {self watch : TransferWatch} {call : Call}
    (h : self.observe call.now call.node call.group call.values = some watch) :
    watch.stamps = self.stamps := by
  have hsame := observe_stamps self self.stamps call
  rw [h, Option.map_some] at hsame
  have heq := Option.some.inj hsame
  rw [heq]

/-- What a node adds to the watch. -/
theorem observeNode_eq (self : TransferWatch) (r : Reading) :
    self.observeNode r.now r.node r.record
      = (self.observe r.now r.node "upload" r.upload.values).bind (fun watch =>
          match r.fresh self.stamps with
          | none => some watch
          | some arrived =>
              ({ watch with stamps := assign r.node arrived self.stamps } : TransferWatch).observe
                arrived r.node "cache" (r.cache arrived).values) := by
  rw [TransferWatch.observeNode]
  cases hupload : self.observe r.now r.node "upload" r.upload.values with
  | none => exact congrArg (Option.bind · _) hupload
  | some watch =>
    have hcall : self.observe r.upload.now r.upload.node r.upload.group r.upload.values
        = some watch := hupload
    have hstamps : watch.stamps = self.stamps := stamps_of_observe hcall
    refine (congrArg (Option.bind · _) hupload).trans ?_
    simp only [Option.bind_some, Reading.fresh]
    cases hstats : r.record.statsAt with
    | none => rfl
    | some arrived =>
      simp only [hstamps]
      by_cases hsame : self.stamps.lookup r.node = some arrived
      · rw [if_pos hsame, Option.filter_some, if_neg (by simp [hsame])]
      · rw [if_neg hsame, Option.filter_some, if_pos (by simp [hsame])]
        rfl

/-- Several calls are the first one and then the others. -/
theorem observeAll_cons (self : TransferWatch) (call : Call) (calls : List Call) :
    self.observeAll (call :: calls)
      = (self.observe call.now call.node call.group call.values).bind
          (fun self => self.observeAll calls) := rfl

/-- Readings are sampled by these calls of `observe`, so the law for calls is one for readings. -/
theorem foldlM_observeNode (self : TransferWatch) (stamps : List (String × ℚ))
    (rs : List Reading) :
    (rs.foldlM (fun (self : TransferWatch) r => self.observeNode r.now r.node r.record) self).map
        TransferWatch.series
      = (({ self with stamps := stamps } : TransferWatch).observeAll
          (readingCalls self.stamps rs)).map TransferWatch.series := by
  -- on the readings; the stamps decide which of them call a second time
  induction rs generalizing self stamps with
  | nil => rfl
  | cons r rs ih =>
    have hupload' := observe_stamps self stamps r.upload
    rw [List.foldlM_cons, observeNode_eq, readingCalls]
    cases hupload : self.observe r.upload.now r.upload.node r.upload.group r.upload.values with
    | none =>
      rw [hupload] at hupload'
      have hleft : self.observe r.now r.node "upload" r.upload.values = none := hupload
      rw [hleft]
      cases r.fresh self.stamps with
      | none => rw [observeAll_cons, hupload']; rfl
      | some arrived => rw [observeAll_cons, hupload']; rfl
    | some watch =>
      rw [hupload, Option.map_some] at hupload'
      have hleft : self.observe r.now r.node "upload" r.upload.values = some watch := hupload
      have hstamps := stamps_of_observe hupload
      rw [hleft, Option.bind_some]
      cases r.fresh self.stamps with
      | none =>
        rw [observeAll_cons, hupload', ← hstamps]
        exact ih watch stamps
      | some arrived =>
        have hcache := observe_stamps watch (assign r.node arrived self.stamps) (r.cache arrived)
        have hcache' := observe_stamps watch stamps (r.cache arrived)
        rw [observeAll_cons, hupload', Option.bind_some, observeAll_cons, hcache']
        show ((TransferWatch.observe _ (r.cache arrived).now (r.cache arrived).node
          (r.cache arrived).group (r.cache arrived).values >>= _).map _) = _
        rw [hcache]
        cases watch.observe (r.cache arrived).now (r.cache arrived).node (r.cache arrived).group
            (r.cache arrived).values with
        | none => rfl
        | some watch' =>
          exact ih { watch' with stamps := assign r.node arrived self.stamps } stamps

/-- Polling the nodes again and again is to observe one reading after the other. -/
theorem poll_eq (self : TransferWatch) (polls : List (ℚ × List (String × Record))) :
    self.poll polls
      = (readings polls).foldlM
          (fun (self : TransferWatch) r => self.observeNode r.now r.node r.record) self := by
  induction polls generalizing self with
  | nil => rfl
  | cons poll polls ih =>
    rw [readings, List.flatMap_cons, List.foldlM_append, List.foldlM_map, ← readings]
    show (self.observeNodes poll.1 poll.2).bind (fun self => self.poll polls) = _
    simp only [ih]
    rfl

/-- What was sampled of the cache arrived with a heartbeat. -/
theorem exists_reading {stamps : List (String × ℚ)} {rs : List Reading} {call : Call}
    (h : call ∈ readingCalls stamps rs) :
    ∃ r ∈ rs, call = r.upload ∨
      ∃ arrived, r.record.statsAt = some arrived ∧ call = r.cache arrived := by
  induction rs generalizing stamps with
  | nil => simp [readingCalls] at h
  | cons r rs ih =>
    have hlater : ∀ stamps, call ∈ readingCalls stamps rs → ∃ r' ∈ r :: rs, call = r'.upload ∨
        ∃ arrived, r'.record.statsAt = some arrived ∧ call = r'.cache arrived := by
      intro stamps hmem
      obtain ⟨r', hr', hcall⟩ := ih hmem
      exact ⟨r', List.mem_cons_of_mem r hr', hcall⟩
    rw [readingCalls] at h
    cases hfresh : r.fresh stamps with
    | none =>
      rw [hfresh] at h
      rcases List.mem_cons.mp h with rfl | h
      · exact ⟨r, List.mem_cons_self, .inl rfl⟩
      · exact hlater _ h
    | some arrived =>
      rw [hfresh] at h
      have harrived : r.record.statsAt = some arrived :=
        (Option.filter_eq_some_iff.mp hfresh).1
      rcases List.mem_cons.mp h with rfl | h
      · exact ⟨r, List.mem_cons_self, .inl rfl⟩
      · rcases List.mem_cons.mp h with rfl | h
        · exact ⟨r, List.mem_cons_self, .inr ⟨arrived, harrived, rfl⟩⟩
        · exact hlater _ h

/-- The record, with other counters in it if no heartbeat has come yet. -/
def Record.guess (stats : Record → Stats) (record : Record) : Record :=
  match record.statsAt with
  | none => { record with stats := stats record }
  | some _ => record

/-- What the watch makes of a record depends on its counters and its heartbeat only. -/
theorem observeNode_guess (self : TransferWatch) (now : ℚ) (node : String)
    (stats : Record → Stats) (record : Record) :
    self.observeNode now node (record.guess stats) = self.observeNode now node record := by
  unfold Record.guess
  split
  case h_1 hstats => simp only [TransferWatch.observeNode, hstats]
  case h_2 => rfl

/-- What stands in a record before its first heartbeat makes no difference. -/
theorem poll_guess (self : TransferWatch) (stats : Record → Stats)
    (polls : List (ℚ × List (String × Record))) :
    self.poll (polls.map (fun poll => (poll.1, poll.2.map (fun n => (n.1, n.2.guess stats)))))
      = self.poll polls := by
  have hnodes : ∀ (self : TransferWatch) (now : ℚ) (nodes : List (String × Record)),
      self.observeNodes now (nodes.map (fun n => (n.1, n.2.guess stats)))
        = self.observeNodes now nodes := by
    intro self now nodes
    rw [TransferWatch.observeNodes, List.foldlM_map]
    simp only [observeNode_guess]
    rfl
  rw [TransferWatch.poll, List.foldlM_map]
  simp only [hnodes]
  rfl

/-! ### The law -/

/-- What a watch tells after some calls. -/
structure Tells (names : String × String → List String) (calls : List Call) (until? : Option ℚ)
    (watch : TransferWatch) (found : List ((String × String) × Span)) (entries : List Entry) :
    Prop where
  /-- the recorded points of a series are strictly increasing in total -/
  rising : ∀ key item, watch.series.lookup key = some item →
    item.points.Pairwise (fun p q => p.2 < q.2)
  result : watch.found until? = some found
  /-- the entries are those of the spans found, in the order the movement began -/
  spans : watch.spans until? = some entries
  perm : entries.Perm (found.map (fun span => span.2.entry))
  sorted : entries.Pairwise (fun a b => a.began ≤ b.began)
  /-- a series appears once, and exactly when it has moved since its last baseline -/
  nodup : (found.map Prod.fst).Nodup
  appears : ∀ key, key ∈ found.map Prod.fst ↔ increase (samples key calls) ≠ 0
  name : ∀ key span, (key, span) ∈ found → span.name = key.1 ++ ":" ++ key.2
  measures : ∀ key span, (key, span) ∈ found →
    Measures (names key) (samples key calls) until? span
  /-- an entry has the counters of its span, and the fields that no counter is named like -/
  fields : ∀ key span, (key, span) ∈ found → ∀ field, span.entry.lookup field
    = ((span.moved.lookup field).map counterField).or (span.fields.lookup field)

/-- The calls and then `spans` raise nothing, and the watch tells exactly the movement. -/
def WatchLaw (low high : Number) (names : String × String → List String) (calls : List Call)
    (until? : Option ℚ) : Prop :=
  ∃ watch found entries, (TransferWatch.init low high).observeAll calls = some watch ∧
    Tells names calls until? watch found entries

section

variable {low high : Number} {names : String × String → List String} {calls : List Call}
  (hlow : 0 ≤ low.value) (hle : low.value ≤ high.value) (hhigh : high.value ≤ 1)
  (hfed : WellFed names calls)

include hlow hle hhigh hfed

/-- The law, for increases within a float. -/
theorem watchLaw_of_covered (until? : Option ℚ) (hcovers : Covered high calls) :
    WatchLaw low high names calls until? := by
  obtain ⟨series, hrun, htracks⟩ := observeAll_tracks low high hfed
  obtain ⟨found, hfound, hnodup, hkeys, hmeasures⟩ :=
    found_measures htracks hfed hlow hle hhigh until? hcovers
  have hspans : TransferWatch.spans ⟨low, high, series, []⟩ until?
      = some ((found.map (fun span => span.2.entry)).insertionSort
          (fun a b => a.began ≤ b.began)) := by
    rw [TransferWatch.spans, hfound]
    rfl
  exact ⟨_, found, _, hrun, {
    rising := fun key item hitem => (htracks.tracks key item hitem).total_lt
    result := hfound
    spans := hspans
    perm := List.perm_insertionSort _ _
    sorted := List.pairwise_insertionSort (fun a b : Entry => a.began ≤ b.began) _
    nodup := hnodup
    appears := hkeys
    name := fun key span hspan => (hmeasures key span hspan).1
    measures := fun key span hspan => (hmeasures key span hspan).2
    fields := by
      intro key span hspan
      have hmoved : samples key calls ≠ [] := by
        intro hnil
        have hne := (hkeys key).mp (List.mem_map_of_mem hspan)
        rw [hnil] at hne
        exact hne rfl
      exact lookup_entry (hfed.uniform key hmoved).nodup (hmeasures key span hspan).2 }⟩

/-- One series that has moved beyond a float, and `spans` raises. -/
theorem spans_raises (until? : Option ℚ) {key : String × String}
    (hmoved : increase (samples key calls) ≠ 0)
    (hcovers : ¬ high.Covers (increase (samples key calls))) :
    ∃ watch, (TransferWatch.init low high).observeAll calls = some watch ∧
      watch.spans until? = none := by
  obtain ⟨series, hrun, htracks⟩ := observeAll_tracks low high hfed
  refine ⟨_, hrun, ?_⟩
  have hpresent : series.lookup key ≠ none := by
    intro hnone
    rw [(htracks.absent key).mp hnone] at hmoved
    exact hmoved rfl
  obtain ⟨item, hitem⟩ := Option.ne_none_iff_exists'.mp hpresent
  have hraises := span_raises (htracks.tracks key item hitem) hlow hle hhigh until?
    (key.1 ++ ":" ++ key.2) hmoved hcovers
  have hfound : TransferWatch.found ⟨low, high, series, []⟩ until? = none := by
    rw [TransferWatch.found, mapM_eq_none (mem_of_lookup hitem) (by rw [hraises]; rfl)]
    rfl
  rw [TransferWatch.spans, hfound]
  rfl

/-- **When the watch measures exactly the movement**: when every increase is within a float. -/
theorem watchLaw_iff (until? : Option ℚ) :
    WatchLaw low high names calls until? ↔ Covered high calls := by
  refine ⟨?_, watchLaw_of_covered hlow hle hhigh hfed until?⟩
  rintro ⟨watch, found, entries, hrun, htells⟩ key hmoved
  by_contra hcovers
  obtain ⟨watch', hrun', hraises⟩ := spans_raises hlow hle hhigh hfed until? hmoved hcovers
  obtain rfl : watch = watch' := Option.some.inj (hrun.symm.trans hrun')
  rw [htells.spans] at hraises
  cases hraises

end

/-! ### Two samples of one counter -/

section

variable (group node name : String) {a b : ℚ} (h : a ≤ b) (x y : ℤ)

include h in
/-- In the order of time they are well fed, whatever the counter does. -/
theorem wellFed_two :
    WellFed (fun _ => [name]) [⟨a, node, group, [(name, x)]⟩, ⟨b, node, group, [(name, y)]⟩] := by
  refine ⟨fun key _ => ⟨List.nodup_singleton _, fun sample hsample => ?_⟩, fun key => ?_⟩
  · obtain ⟨call, hcall, rfl⟩ := List.mem_map.mp hsample
    have hmem := (List.mem_filter.mp hcall).1
    simp only [List.mem_cons, List.not_mem_nil, or_false] at hmem
    rcases hmem with rfl | rfl <;> exact .refl _
  · refine List.pairwise_map.mpr (List.Pairwise.filter _ ?_)
    simpa using h

variable {group node name x y}

/-- No other series has a sample, since both calls are for this one. -/
theorem samples_two_of_ne {key : String × String} (hkey : (group, node) ≠ key) :
    samples key [⟨a, node, group, [(name, x)]⟩, ⟨b, node, group, [(name, y)]⟩] = [] := by
  rw [samples, List.map_eq_nil_iff, List.filter_eq_nil_iff]
  intro call hcall
  simp only [List.mem_cons, List.not_mem_nil, or_false] at hcall
  rcases hcall with rfl | rfl <;> exact mt of_decide_eq_true hkey

end

/-- The float `1.0`; as the upper threshold it asks for all the bytes of a series. -/
def one : Number := ⟨1, 1, 0, by decide, by decide, by norm_num⟩

/-- The default thresholds are shares, the low one below the high one. -/
theorem default_shares :
    0 ≤ lowDefault.value ∧ lowDefault.value ≤ highDefault.value ∧ highDefault.value ≤ 1 := by
  decide +kernel

/-- **The watch measures exactly the movement**, if and only if what each series has moved since its
    last baseline can be converted to a float, without being rounded up if all of it is asked for.
    And of a worker's cache it samples what a heartbeat has brought, and nothing before the first
    one. -/
theorem watch_measures {low high : Number} (hlow : 0 ≤ low.value) (hle : low.value ≤ high.value)
    (hhigh : high.value ≤ 1) :
    (∀ names calls until?, WellFed names calls →
      (WatchLaw low high names calls until? ↔
        ∀ key, increase (samples key calls) ≠ 0 → high.Covers (increase (samples key calls)))) ∧
    (∀ polls, ∃ calls,
      ((TransferWatch.init low high).poll polls).map TransferWatch.series
        = ((TransferWatch.init low high).observeAll calls).map TransferWatch.series ∧
      ∀ call ∈ calls, ∃ r ∈ readings polls, call = r.upload ∨
        ∃ arrived, r.record.statsAt = some arrived ∧ call = r.cache arrived) ∧
    ∀ polls stats, (TransferWatch.init low high).poll
        (polls.map (fun poll => (poll.1, poll.2.map (fun n => (n.1, n.2.guess stats)))))
      = (TransferWatch.init low high).poll polls := by
  refine ⟨fun names calls until? hfed => watchLaw_iff hlow hle hhigh hfed until?, fun polls => ?_,
    fun polls stats => poll_guess _ stats polls⟩
  refine ⟨readingCalls [] (readings polls), ?_, fun call hcall => exists_reading hcall⟩
  rw [poll_eq]
  exact foldlM_observeNode _ [] (readings polls)

/-- A worker that has been sent 700 bytes, watched with the default thresholds. -/
theorem watch_measures_laptop :
    WatchLaw lowDefault highDefault (fun _ => ["to_worker"])
      [⟨0, "laptop", "upload", [("to_worker", 300)]⟩,
        ⟨1, "laptop", "upload", [("to_worker", 1000)]⟩] none := by
  obtain ⟨hlow, hle, hhigh⟩ := default_shares
  refine ((watch_measures hlow hle hhigh).1 _ _ none
    (wellFed_two "upload" "laptop" "to_worker" zero_le_one 300 1000)).mpr fun key hmoved => ?_
  by_cases hkey : ("upload", "laptop") = key
  · subst hkey
    have hincrease : increase (samples ("upload", "laptop")
        [⟨0, "laptop", "upload", [("to_worker", 300)]⟩,
          ⟨1, "laptop", "upload", [("to_worker", 1000)]⟩]) = 700 := by decide +kernel
    rw [hincrease]
    exact ⟨by decide +kernel, by decide +kernel⟩
  · rw [samples_two_of_ne hkey] at hmoved
    exact absurd rfl hmoved

/-- A heartbeat may tell any integer, also one that is too large for a float: `spans` raises.  And a
    whole that the conversion rounds up is never reached. -/
theorem watch_overflows :
    (∃ watch, (TransferWatch.init lowDefault highDefault).observeAll
          [⟨0, "laptop", "cache", [("hit", 0)]⟩, ⟨1, "laptop", "cache", [("hit", 10 ^ 400)]⟩]
        = some watch ∧ watch.spans none = none) ∧
    ¬ WatchLaw lowDefault highDefault (fun _ => ["hit"])
      [⟨0, "laptop", "cache", [("hit", 0)]⟩, ⟨1, "laptop", "cache", [("hit", 10 ^ 400)]⟩] none ∧
    ¬ WatchLaw lowDefault one (fun _ => ["hit"])
      [⟨0, "laptop", "cache", [("hit", 0)]⟩, ⟨1, "laptop", "cache", [("hit", 2 ^ 53 + 3)]⟩]
      none := by
  have hfed : ∀ hit, WellFed (fun _ => ["hit"])
      [⟨0, "laptop", "cache", [("hit", 0)]⟩, ⟨1, "laptop", "cache", [("hit", hit)]⟩] :=
    wellFed_two "cache" "laptop" "hit" zero_le_one 0
  obtain ⟨hlow, hle, hhigh⟩ := default_shares
  have hone : lowDefault.value ≤ one.value := hle.trans hhigh
  have hlarge : increase (samples ("cache", "laptop")
      [⟨0, "laptop", "cache", [("hit", 0)]⟩, ⟨1, "laptop", "cache", [("hit", 10 ^ 400)]⟩])
      = 10 ^ 400 := by decide +kernel
  have hodd : increase (samples ("cache", "laptop")
      [⟨0, "laptop", "cache", [("hit", 0)]⟩, ⟨1, "laptop", "cache", [("hit", 2 ^ 53 + 3)]⟩])
      = 2 ^ 53 + 3 := by decide +kernel
  -- too large for a float
  have hoverflow : ¬ highDefault.Covers (10 ^ 400) := fun hcovers =>
    absurd hcovers.converts (by decide +kernel)
  -- rounded to more than was moved
  have hround : ¬ one.Covers (2 ^ 53 + 3) := fun hcovers =>
    absurd (hcovers.not_above rfl) (by decide +kernel)
  refine ⟨?_, fun hlaw => ?_, fun hlaw => ?_⟩
  · exact spans_raises hlow hle hhigh (hfed _) none (by rw [hlarge]; decide +kernel)
      (hlarge.symm ▸ hoverflow)
  · have hcovers := (watchLaw_iff hlow hle hhigh (hfed _) none).mp hlaw _
      (by rw [hlarge]; decide +kernel)
    exact hoverflow (hlarge ▸ hcovers)
  · have hcovers := (watchLaw_iff hlow hone le_rfl (hfed _) none).mp hlaw _
      (by rw [hodd]; decide +kernel)
    exact hround (hodd ▸ hcovers)

end ShareCompute.Cluster
