import ShareCompute.App.EventLogLine

namespace ShareCompute.App.EventLog

open ShareCompute.Library

/-!
# The ring of the event log

What `EventLog.record` keeps in memory, for the export of a launch whose file could not be kept.

* `Longest` — the longest end of a list of lines that is within the bounds.
* `trim_longest` — the loop in `record` leaves it.
* `ring_bounded_suffix` — the ring in every run of a launch.
-/

/-! ### What the loop leaves -/

/-- Lines that are within both bounds of the ring, that of their number and that of their bytes. -/
def Fits (ring : List (List Char)) : Prop :=
  ring.length ≤ maxRingLines ∧ (ring.map utf8Count).sum ≤ maxRingBytes

/-- The longest end of the lines that is within the bounds. -/
structure Longest (lines ring : List (List Char)) : Prop where
  suffix : ring <:+ lines
  fits : Fits ring
  longest : ∀ other, other <:+ lines → Fits other → other <:+ ring

/-- Trimming drops lines from the front of the ring only. -/
theorem trim_suffix (ring : List (List Char)) (bytes : ℤ) : (trim ring bytes).1 <:+ ring := by
  induction ring generalizing bytes with
  | nil => exact List.suffix_rfl
  | cons line ring ih =>
    rw [trim]
    split
    case isTrue => exact (ih _).trans (List.suffix_cons line ring)
    case isFalse => exact List.suffix_rfl

/-- No end that fits loses a line: the oldest line is dropped only where all lines do not fit. -/
theorem suffix_trim {ring other : List (List Char)} {bytes : ℤ}
    (hbytes : bytes = (ring.map utf8Count).sum) (hother : other <:+ ring) (hfits : Fits other) :
    other <:+ (trim ring bytes).1 := by
  induction ring generalizing bytes with
  | nil => exact hother
  | cons line ring ih =>
    rw [trim]
    split
    case isFalse => exact hother
    case isTrue hover =>
      have hsum : bytes = utf8Count line + (ring.map utf8Count).sum := by
        rw [hbytes, List.map_cons, List.sum_cons]
      rcases List.suffix_cons_iff.mp hother with rfl | hother
      · obtain ⟨hlines, hlimit⟩ := hfits
        rw [List.map_cons, List.sum_cons] at hlimit
        omega
      · exact ih (by omega) hother

/-- **The loop leaves the longest end** of the ring that is within the bounds. -/
theorem trim_longest (ring : List (List Char)) {bytes : ℤ}
    (hbytes : bytes = (ring.map utf8Count).sum) : Longest ring (trim ring bytes).1 := by
  obtain ⟨hbooks, hlines, hlimit⟩ := trim_spec ring bytes hbytes
  refine ⟨trim_suffix ring bytes, ⟨hlines, ?_⟩, fun other => suffix_trim hbytes⟩
  rw [← hbooks]
  exact hlimit

/-! ### Launches -/

variable {φ : Type} (swift : Swift φ)

/-- The arguments of a call of `record`. -/
structure Entry (φ : Type) where
  atMs : φ
  stamp : List Char
  name : String
  body : List Char

/-- The line with the number `n` of a launch, spelled out for an entry. -/
def lineText (launchID : List Char) (n : ℕ) (entry : Entry φ) : List Char :=
  "\x7b\"at_ms\":".toList ++ swift.description entry.atMs ++ ",\"ts\":\"".toList ++ entry.stamp
    ++ "\",\"launch\":\"".toList ++ launchID ++ "\",\"n\":".toList
    ++ Json.intLiteral n ++ ",\"ev\":".toList ++ swift.quote entry.name ++ entry.body ++ ['}']

/-- The log of a launch before its first line. -/
def opened (launchID : {id : List Char // ∀ c ∈ id, isHex c.toNat = true}) : EventLog :=
  ⟨launchID.1, launchID.2, [], 0, 0⟩

/-- An entry is recorded with its stamp and its body, and the line of it is returned. -/
def recordEntry (self : EventLog) (entry : Entry φ) : EventLog × List Char :=
  self.record swift entry.atMs entry.stamp entry.name entry.body

/-- The log after some calls of `record`. -/
def recordAll (self : EventLog) (entries : List (Entry φ)) : EventLog :=
  entries.foldl (fun log entry => (log.recordEntry swift entry).1) self

/-- The lines that were recorded: 1, 2, 3... within a launch. -/
def recordedLines (launchID : List Char) (entries : List (Entry φ)) : List (List Char) :=
  entries.mapIdx (fun i entry => lineText swift launchID (i + 1) entry)

/-- The ring after an entry is the ring before it with the line behind, trimmed to its bounds. -/
theorem recordEntry_ring (self : EventLog) (entry : Entry φ) :
    (self.recordEntry swift entry).1.ring = (trim
      (self.ring ++ [lineText swift self.launchID (self.sequence + 1) entry])
      (self.ringBytes
        + utf8Count (lineText swift self.launchID (self.sequence + 1) entry))).1 := rfl

/-- The ring is the end of what has been recorded. -/
structure Follows (log : EventLog) (recorded : List (List Char)) : Prop extends Kept log where
  suffix : log.ring <:+ recorded
  count : log.sequence = recorded.length

/-- One more entry is recorded: the ring goes on following the lines of the launch. -/
theorem Follows.record {log : EventLog} {recorded : List (List Char)} (h : Follows log recorded)
    (entry : Entry φ) : Follows (log.recordEntry swift entry).1
      (recorded ++ [lineText swift log.launchID (recorded.length + 1) entry]) := by
  refine ⟨record_kept swift h.toKept _ _ _ _, ?_, ?_⟩
  · obtain ⟨front, hfront⟩ := h.suffix
    rw [recordEntry_ring, h.count, ← hfront, List.append_assoc]
    exact (trim_suffix _ _).trans (List.suffix_append _ _)
  · rw [List.length_append, List.length_singleton, ← h.count]
    rfl

/-- Recording does not change the launch that the lines name. -/
theorem launchID_recordAll (self : EventLog) (entries : List (Entry φ)) :
    (self.recordAll swift entries).launchID = self.launchID := by
  induction entries using List.reverseRecOn with
  | nil => rfl
  | append_singleton entries entry ih =>
    rw [recordAll, List.foldl_append]
    exact ih

/-- After any entries the ring holds the last of their lines, as many as the bounds allow. -/
theorem follows_recordAll (launchID : {id : List Char // ∀ c ∈ id, isHex c.toNat = true})
    (entries : List (Entry φ)) :
    Follows ((opened launchID).recordAll swift entries)
      (recordedLines swift launchID.1 entries) := by
  induction entries using List.reverseRecOn with
  | nil =>
    have hkept : Kept (opened launchID) := ⟨rfl, Nat.zero_le _, Int.natCast_nonneg 2000000⟩
    exact ⟨hkept, List.suffix_rfl, rfl⟩
  | append_singleton entries entry ih =>
    have hrecord := ih.record swift entry
    rw [launchID_recordAll, recordedLines, List.length_mapIdx] at hrecord
    rw [recordAll, List.foldl_append, recordedLines, List.mapIdx_concat]
    exact hrecord

/-- The numbers of the lines at the end: the one behind the dropped lines, and so on. -/
theorem numbered_of_suffix {launchID : List Char} {entries : List (Entry φ)}
    {ring : List (List Char)} (h : ring <:+ recordedLines swift launchID entries) :
    ∃ dropped, dropped + ring.length = entries.length ∧ ∀ i entry,
      entries[dropped + i]? = some entry →
        ring[i]? = some (lineText swift launchID (dropped + i + 1) entry) := by
  obtain ⟨dropped, hdropped⟩ : ∃ dropped, ring = (recordedLines swift launchID entries).drop dropped
      ∧ dropped + ring.length = entries.length := by
    have hlength := h.length_le
    rw [recordedLines, List.length_mapIdx] at hlength
    refine ⟨entries.length - ring.length, ?_, by omega⟩
    have hdrop := List.suffix_iff_eq_drop.mp h
    rwa [recordedLines, List.length_mapIdx, ← recordedLines] at hdrop
  refine ⟨dropped, hdropped.2, fun i entry hentry => ?_⟩
  rw [hdropped.1, List.getElem?_drop, recordedLines, List.getElem?_mapIdx, hentry]
  rfl

/-- **The ring is a bounded suffix.**  After any calls of `record` it knows its size, is an end of
    the lines recorded so far, is within both bounds, and its lines have consecutive numbers up to
    the last one; one more call leaves the longest end of the ring and the new line that is within
    both bounds. -/
theorem ring_bounded_suffix (launchID : {id : List Char // ∀ c ∈ id, isHex c.toNat = true})
    (entries : List (Entry φ)) (entry : Entry φ) :
    let log := (opened launchID).recordAll swift entries
    log.ringBytes = (log.ring.map utf8Count).sum ∧
      log.ring <:+ recordedLines swift launchID.1 entries ∧
      log.ring.length ≤ maxRingLines ∧ log.ringBytes ≤ maxRingBytes ∧
      (∃ dropped, dropped + log.ring.length = entries.length ∧ ∀ i entry,
        entries[dropped + i]? = some entry →
          log.ring[i]? = some (lineText swift launchID.1 (dropped + i + 1) entry)) ∧
      Longest (log.ring ++ [lineText swift launchID.1 (entries.length + 1) entry])
        (log.recordEntry swift entry).1.ring := by
  intro log
  have hfollows : Follows log (recordedLines swift launchID.1 entries) :=
    follows_recordAll swift launchID entries
  have hcount : log.sequence = entries.length := by
    rw [hfollows.count, recordedLines, List.length_mapIdx]
  have hlaunch : log.launchID = launchID.1 := launchID_recordAll swift (opened launchID) entries
  refine ⟨hfollows.books, hfollows.suffix, hfollows.lines, hfollows.bytes,
    numbered_of_suffix swift hfollows.suffix, ?_⟩
  rw [recordEntry_ring, hcount, hlaunch]
  apply trim_longest
  rw [List.map_append, List.sum_append, ← hfollows.books]
  simp

end ShareCompute.App.EventLog
