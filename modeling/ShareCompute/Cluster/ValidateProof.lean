import ShareCompute.Cluster.Relay
import ShareCompute.Cluster.BuildStamp
import ShareCompute.Library.FindAll
import Mathlib.Data.List.Sort

namespace ShareCompute.Cluster

open ShareCompute.Library

/-!
# What counts as proof of a split run

`split_cluster.py`, `validate_proof`: the tokens, the log of the probe, the records of the
relay and the graph calls counted before the run are checked against each other.

Python's tables of character classes and `ipaddress` are inputs.
-/

/-- `NODES`, the nodes of the cluster in the order of their indices. -/
def nodes : List String := ["laptop", "android", "iphone"]

/-! ### The log -/

/-- The character classes of `re`, which follow a version of Unicode. -/
structure CharClasses where
  /-- `\s` -/
  isSpace : Char → Bool
  /-- `\d`, with the value `int` gives it -/
  digit : Char → Option ℕ
  /-- `\w` -/
  isWord : Char → Bool

section

variable (classes : CharClasses)

def CharClasses.isDigit (c : Char) : Bool := (classes.digit c).isSome

/-- The text after `literal`, if it begins so. -/
def dropLiteral : List Char → List Char → Option (List Char)
  | [], text => some text
  | _ :: _, [] => none
  | c :: literal, d :: text => if c = d then dropLiteral literal text else none

/-- The text after `\s+`, if there is a space at all. -/
def dropSpaces (text : List Char) : Option (List Char) :=
  match text with
  | [] => none
  | c :: text => if classes.isSpace c then some (text.dropWhile classes.isSpace) else none

/-- The digits and the text after them, if the pattern `layer\s+(\d+)\s+assigned to device RPC`
    with the index and `\b` matches at the start of a text.  What comes next never fits what came
    before, so there is one way to match. -/
def matchLayer (index : ℕ) (text : List Char) : Option (List Char × List Char) := do
  let text ← dropLiteral "layer".toList text
  let text ← dropSpaces classes text
  let digits := text.takeWhile classes.isDigit
  guard (digits ≠ [])
  let text ← dropSpaces classes (text.dropWhile classes.isDigit)
  let text ← dropLiteral ("assigned to device RPC" ++ toString index).toList text
  guard ((text.head?.map classes.isWord).getD false = false)
  return (digits, text)

/-- `re.findall`: the digits of all layers that the log assigns to an index. -/
def findLayers (index : ℕ) (text : List Char) : List (List Char) :=
  findAll (matchLayer classes index) text.length text

/-- The number that digits stand for, in whatever script they are. -/
def CharClasses.value (digits : List Char) : ℕ :=
  digits.foldl (fun n c => 10 * n + (classes.digit c).getD 0) 0

/-- `sys.get_int_max_str_digits()`, above which `int` raises. -/
def maxStrDigits : ℕ := 4300

/-- `int(digits)`, which refuses to read long numbers. -/
def int (digits : List Char) : Except String ℕ :=
  if maxStrDigits < digits.length then
    .error ("Exceeds the limit (" ++ toString maxStrDigits ++
      " digits) for integer string conversion: value has " ++ toString digits.length ++
      " digits; use sys.set_int_max_str_digits() to increase the limit")
  else .ok (classes.value digits)

/-- `sorted(set(map(int, re.findall(...))))`: the layers that the log assigns to an index. -/
def assignedLayers (log : String) (index : ℕ) : Except String (List ℕ) := do
  let layers ← (findLayers classes index log.toList).mapM (int classes)
  return layers.dedup.insertionSort (· ≤ ·)

/-! ### The nodes -/

/-- A character of `repr(text)`: the quote and the backslash are escaped, and what does not print
    is written by its code.  Beyond ASCII every character is taken to print. -/
def reprChar (quote c : Char) : List Char :=
  if c = quote ∨ c = '\\' then ['\\', c]
  else if c = '\t' then ['\\', 't']
  else if c = '\n' then ['\\', 'n']
  else if c = '\r' then ['\\', 'r']
  else if c.toNat < 32 ∨ c.toNat = 127 then
    ['\\', 'x', Nat.digitChar (c.toNat / 16), Nat.digitChar (c.toNat % 16)]
  else [c]

/-- `repr(text)`, the text of a `KeyError`; double quotes stand around a text that has single ones
    and no double ones. -/
def reprStr (text : String) : String :=
  let quote := if '\x27' ∈ text.toList ∧ '"' ∉ text.toList then '"' else '\x27'
  .ofList (quote :: text.toList.flatMap (reprChar quote) ++ [quote])

/-- What the report says about a worker. -/
structure WorkerReport where
  layers : List ℕ
  graphCalls : ℤ
  peakBytes : ℕ
  bytesToWorker : ℕ
  bytesFromWorker : ℕ
  platform : Json
  simulator : Json
  peer : String
  budgetMib : Json

def workerReport (record : Record) (layers : List ℕ) (calls : ℤ) (budgetMib : Json) :
    WorkerReport where
  layers := layers
  graphCalls := calls
  peakBytes := record.stats.peakBytes
  bytesToWorker := record.bytes.1
  bytesFromWorker := record.bytes.2
  platform := Dict.get record.hello "platform"
  simulator := Dict.get record.hello "simulator"
  peer := record.peer
  budgetMib := budgetMib

/-- The round of the loop for one node. -/
def validateNode (log : String) (records : Dictionary String Record) (before : String → ℕ)
    (index : ℕ) (node : String) (assigned : List ℕ) : Except String WorkerReport :=
  match assignedLayers classes log index with
  | .error text => .error text
  | .ok layers =>
      match records.lookup node with
      | none => .error (reprStr node)
      | some record =>
          let calls : ℤ := record.stats.graphCalls - before node
          if layers = [] ∨ ∃ layer ∈ layers, layer ∈ assigned then
            .error (node ++ " has missing or overlapping model layers")
          else if calls ≤ 0 ∨ record.stats.peakBytes = 0 ∨
              min record.bytes.1 record.bytes.2 = 0 then
            .error (node ++ " lacks native compute, allocation, or bidirectional data evidence")
          else
            match record.hello.lookup "budget_mib" with
            | none => .error (reprStr "budget_mib")
            | some budgetMib =>
                .ok (workerReport record layers calls budgetMib)

/-- The loop over the nodes; `assigned` are the layers of the nodes before. -/
def validateNodes (log : String) (records : Dictionary String Record) (before : String → ℕ) :
    List (String × ℕ) → List ℕ → Except String (List (String × WorkerReport))
  | [], _ => .ok []
  | (node, index) :: rest, assigned =>
      match validateNode classes log records before index node assigned with
      | .error text => .error text
      | .ok report =>
          match validateNodes log records before rest (report.layers ++ assigned) with
          | .error text => .error text
          | .ok reports => .ok ((node, report) :: reports)

/-! ### The proof -/

/-- The token ids the split has to reproduce, and whether they were pinned. -/
structure Baseline where
  tokenIds : Option (List ℤ)
  profile : Bool

/-- `build_summary`, of which only what `compare` adds to it is kept.  The order of the records
    does not show: `compare` sorts the names. -/
def buildSummary (kitBuild : Dict) (records : Dictionary String Record) (probe : Json) :
    BuildSummary :=
  compare (("coordinator", kitBuild) :: ("probe", [("commit", probe)]) ::
    records.entries.map (fun entry =>
      (entry.1 ++ "-worker", [("commit", Dict.get entry.2.hello "build")])))

/-- The components were not built from different commits. -/
def validateBuild : Option BuildSummary → Except String Unit
  | none => .ok ()
  | some build =>
      if build.mismatch then
        -- no two items have the same commit, so only the commits are compared
        let items := build.commits.insertionSort (fun x y => x.1 ≤ y.1)
        let named := items.map (fun (commit, who) =>
          String.ofList (commit.toList.take 7) ++ ": " ++ ", ".intercalate who)
        .error ("Components were built from different commits, " ++
          "so this run is not comparable evidence (" ++ "; ".intercalate named ++ ")")
      else .ok ()

/-- A phone is neither a simulator nor local. -/
def validatePhone (isLoopback : String → Option Bool) (node : String) (report : WorkerReport) :
    Except String Unit :=
  if report.simulator.truthy then .error (node ++ " is a simulator or loopback worker")
  else
    match isLoopback report.peer with
    | none => .error (reprStr report.peer ++ " does not appear to be an IPv4 or IPv6 address")
    | some true => .error (node ++ " is a simulator or loopback worker")
    | some false => .ok ()

/-- The checks that only a run on physical devices has to pass. -/
def validatePhysical (isLoopback : String → Option Bool) (reports : List (String × WorkerReport)) :
    Except String Unit :=
  match reports.lookup "android", reports.lookup "iphone" with
  | some android, some iphone =>
      if !android.platform.isStr "android" || !iphone.platform.isStr "ios" then
        .error "Physical proof requires Android and native iOS workers"
      else do
        validatePhone isLoopback "android" android
        validatePhone isLoopback "iphone" iphone
        if android.peer = iphone.peer then .error "Phones must have distinct LAN addresses"
        else .ok ()
  | _, _ => .error (reprStr "android")

/-- What the probes and the build stamps contribute to a proof. -/
structure ProofInput where
  baseline : Baseline
  /-- the token ids of the split run -/
  result : Option (List ℤ)
  log : String
  physical : Bool
  build : Option BuildSummary

/-- `validate_proof`: the tokens, then the nodes, the builds, and the phones where they are asked
    for. -/
def validateProof (isLoopback : String → Option Bool) (input : ProofInput)
    (records : Dictionary String Record) (before : String → ℕ) :
    Except String (List (String × WorkerReport)) :=
  if input.baseline.tokenIds.getD [] = [] ∨ input.result ≠ input.baseline.tokenIds then
    .error ("Split greedy tokens differ from the " ++
      if input.baseline.profile then "pinned reference" else "local baseline")
  else
    match validateNodes classes input.log records before nodes.zipIdx [] with
    | .error text => .error text
    | .ok reports =>
        match validateBuild input.build with
        | .error text => .error text
        | .ok _ =>
            if input.physical then
              (validatePhysical isLoopback reports).map (fun _ => reports)
            else .ok reports

/-! ### What an accepted proof shows -/

variable {classes} {log : String} {records : Dictionary String Record} {before : String → ℕ}

/-- A worker has computed, allocated memory, and exchanged data both ways. -/
structure Computed (before : ℕ) (record : Record) : Prop where
  calls : before < record.stats.graphCalls
  peak : 0 < record.stats.peakBytes
  sent : 0 < record.bytes.1
  received : 0 < record.bytes.2

/-- When a node is accepted, and with which report. -/
theorem validateNode_eq_ok {index : ℕ} {node : String} {assigned : List ℕ}
    {report : WorkerReport} :
    validateNode classes log records before index node assigned = .ok report ↔
      ∃ layers record budgetMib, assignedLayers classes log index = .ok layers ∧
        records.lookup node = some record ∧ (layers ≠ [] ∧ ∀ layer ∈ layers, layer ∉ assigned) ∧
        Computed (before node) record ∧ record.hello.lookup "budget_mib" = some budgetMib ∧
        report = workerReport record layers (record.stats.graphCalls - before node) budgetMib := by
  unfold validateNode
  constructor
  · intro h
    split at h
    case h_1 => cases h
    case h_2 layers hlayers =>
      split at h
      case h_1 => cases h
      case h_2 record hrecord =>
        dsimp only at h
        split at h
        · cases h
        split at h
        · cases h
        rename_i hassigned hevidence
        split at h
        case h_1 => cases h
        case h_2 budgetMib hbudget =>
          -- every check has been passed
          have hcomputed : Computed (before node) record := by
            constructor <;> omega
          rw [not_or] at hassigned
          have hdisjoint : ∀ layer ∈ layers, layer ∉ assigned :=
            fun layer hlayer hmem => hassigned.2 ⟨layer, hlayer, hmem⟩
          exact ⟨layers, record, budgetMib, hlayers, hrecord, ⟨hassigned.1, hdisjoint⟩, hcomputed,
            hbudget, (Except.ok.inj h).symm⟩
  · rintro ⟨layers, record, budgetMib, hlayers, hrecord, ⟨hsome, hdisjoint⟩, hcomputed, hbudget,
      rfl⟩
    have hassigned : ¬ (layers = [] ∨ ∃ layer ∈ layers, layer ∈ assigned) := by
      rintro (hnone | ⟨layer, hlayer, hmem⟩)
      · exact hsome hnone
      · exact hdisjoint layer hlayer hmem
    obtain ⟨hcalls, hpeak, hsent, hreceived⟩ := hcomputed
    have hevidence : ¬ ((record.stats.graphCalls : ℤ) - before node ≤ 0 ∨
        record.stats.peakBytes = 0 ∨ min record.bytes.1 record.bytes.2 = 0) := by omega
    rw [hlayers]
    dsimp only
    rw [hrecord]
    dsimp only
    rw [if_neg hassigned, if_neg hevidence, hbudget]

/-- An accepted node has a record with more graph calls than before. -/
theorem calls_of_validateNode {index : ℕ} {node : String} {assigned : List ℕ}
    {report : WorkerReport}
    (h : validateNode classes log records before index node assigned = .ok report) :
    ∃ record, records.lookup node = some record ∧ before node < record.stats.graphCalls := by
  obtain ⟨layers, record, budgetMib, -, hrecord, -, hcomputed, -⟩ := validateNode_eq_ok.mp h
  exact ⟨record, hrecord, hcomputed.calls⟩

theorem calls_of_validateNodes {indexed : List (String × ℕ)} {assigned : List ℕ}
    {reports : List (String × WorkerReport)}
    (h : validateNodes classes log records before indexed assigned = .ok reports) :
    ∀ entry ∈ indexed, ∃ record, records.lookup entry.1 = some record ∧
      before entry.1 < record.stats.graphCalls := by
  induction indexed generalizing assigned reports with
  | nil => simp
  | cons entry rest ih =>
    obtain ⟨node, index⟩ := entry
    rw [validateNodes] at h
    split at h
    case h_1 => simp at h
    case h_2 report hreport =>
      split at h
      case h_1 => simp at h
      case h_2 reports' hreports =>
        intro entry hentry
        rcases List.mem_cons.mp hentry with rfl | hentry
        · exact calls_of_validateNode hreport
        · exact ih hreports entry hentry

/-- **An accepted proof** has, for every node, a record with more graph calls than before. -/
theorem calls_of_validateProof {isLoopback : String → Option Bool} {input : ProofInput}
    {reports : List (String × WorkerReport)}
    (h : validateProof classes isLoopback input records before = .ok reports) :
    ∀ node ∈ nodes, ∃ record, records.lookup node = some record ∧
      before node < record.stats.graphCalls := by
  unfold validateProof at h
  split at h
  · simp at h
  split at h
  case h_1 => simp at h
  case h_2 reports' hreports =>
    intro node hnode
    obtain ⟨index, hindex⟩ := List.mem_iff_getElem?.mp hnode
    have hentry : (node, index) ∈ nodes.zipIdx :=
      List.mem_zipIdx_iff_getElem?.mpr hindex
    exact calls_of_validateNodes hreports _ hentry

end

end ShareCompute.Cluster
