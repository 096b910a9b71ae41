import ShareCompute.Cluster.LayerLog
import ShareCompute.Cluster.RelayLaws
import ShareCompute.Cluster.GraphEvidence
import Mathlib.Order.CompletePartialOrder
import Mathlib.Tactic.IntervalCases

namespace ShareCompute.Cluster

open ShareCompute.Library

/-!
# What an accepted proof has shown

`validate_proof` is the one gate between a run and its pass.  `Evidence` lists what it is there
to see; what it lets through is that, as far as the layer numbers of the log can be read.

* `exists_validateNodes` — the loop over the nodes.
* `mismatch_buildSummary` — the comparison of the builds.
* `validate_proof` — acceptance and evidence, for the records of any run of the relay.
-/

section

variable {classes : CharClasses} {log : String} {records : Dictionary String Record}
  {before : String → ℕ}

/-! ### The loop over the nodes -/

/-- What the round for a node asks for, the layers of the nodes before apart. -/
structure NodeShown (classes : CharClasses) (log : String) (records : Dictionary String Record)
    (before : String → ℕ) (node : String) (device : String) : Prop where
  readable : Readable classes log device
  assigned : (layersOf classes log device).Nonempty
  computed : ∃ record, records.lookup node = some record ∧ Computed (before node) record ∧
    (record.hello.lookup "budget_mib").isSome = true

/-- A node that is validated has shown what is asked of it, and its layers are disjoint from those
    before. -/
theorem shown_of_validateNode (hclasses : classes.Lawful) {index : ℕ} {node : String}
    {assigned : List ℕ} {report : WorkerReport}
    (h : validateNode classes log records before index node assigned = .ok report) :
    NodeShown classes log records before node ("RPC" ++ toString index) ∧
      Disjoint (layersOf classes log ("RPC" ++ toString index)) {layer | layer ∈ assigned} ∧
      ∀ layer, layer ∈ report.layers ↔ layer ∈ layersOf classes log ("RPC" ++ toString index) := by
  obtain ⟨layers, record, budgetMib, hlayers, hrecord, ⟨hsome, hdisjoint⟩, hcomputed, hbudget,
    rfl⟩ := validateNode_eq_ok.mp h
  obtain ⟨hreadable, hmem⟩ := assignedLayers_eq_ok hclasses hlayers
  obtain ⟨layer, hlayer⟩ := List.exists_mem_of_ne_nil _ hsome
  refine ⟨⟨hreadable, ⟨layer, (hmem layer).mp hlayer⟩, record, hrecord, hcomputed, ?_⟩, ?_, hmem⟩
  · rw [hbudget]
    rfl
  · exact Set.disjoint_left.mpr fun layer hlayer => hdisjoint layer ((hmem layer).mpr hlayer)

/-- A node that has shown what is asked of it, with layers disjoint from those before, is
    validated. -/
theorem exists_validateNode (hclasses : classes.Lawful) {index : ℕ} {node : String}
    {assigned : List ℕ}
    (h : NodeShown classes log records before node ("RPC" ++ toString index))
    (hdisjoint : Disjoint (layersOf classes log ("RPC" ++ toString index))
      {layer | layer ∈ assigned}) :
    ∃ report, validateNode classes log records before index node assigned = .ok report := by
  obtain ⟨hreadable, ⟨layer, hlayer⟩, record, hrecord, hcomputed, hbudget⟩ := h
  obtain ⟨budgetMib, hbudget⟩ := Option.isSome_iff_exists.mp hbudget
  obtain ⟨layers, hlayers⟩ := exists_assignedLayers hclasses hreadable
  have hmem := (assignedLayers_eq_ok hclasses hlayers).2
  refine ⟨_, validateNode_eq_ok.mpr ⟨layers, record, budgetMib, hlayers, hrecord, ⟨?_, ?_⟩,
    hcomputed, hbudget, rfl⟩⟩
  · exact List.ne_nil_of_mem ((hmem layer).mpr hlayer)
  · exact fun layer hlayer => Set.disjoint_left.mp hdisjoint ((hmem layer).mp hlayer)

/-- A node is let through, and then the rest of the loop is. -/
theorem validateNodes_cons_eq_ok {entry : String × ℕ} {rest : List (String × ℕ)}
    {assigned : List ℕ} {reports : List (String × WorkerReport)} :
    validateNodes classes log records before (entry :: rest) assigned = .ok reports ↔
      ∃ report reports', validateNode classes log records before entry.2 entry.1 assigned
          = .ok report ∧
        validateNodes classes log records before rest (report.layers ++ assigned) = .ok reports' ∧
        reports = (entry.1, report) :: reports' := by
  obtain ⟨node, index⟩ := entry
  rw [validateNodes]
  constructor
  · intro h
    split at h
    case h_1 => cases h
    case h_2 report hreport =>
      split at h
      case h_1 => cases h
      case h_2 reports' hreports =>
        exact ⟨report, reports', hreport, hreports, (Except.ok.inj h).symm⟩
  · rintro ⟨report, reports', hreport, hreports, rfl⟩
    dsimp only at hreport
    rw [hreport]
    dsimp only
    rw [hreports]

/-- To be apart from what has been assigned is to be apart from the layers of the last node and
    from what was assigned before it. -/
theorem disjoint_append {p q : Set ℕ} {layers assigned : List ℕ}
    (hlayers : ∀ layer, layer ∈ layers ↔ layer ∈ q) :
    Disjoint p {layer | layer ∈ layers ++ assigned} ↔
      Disjoint p q ∧ Disjoint p {layer | layer ∈ assigned} := by
  have hunion : {layer | layer ∈ layers ++ assigned} = q ∪ {layer | layer ∈ assigned} := by
    ext layer
    show layer ∈ layers ++ assigned ↔ layer ∈ q ∨ layer ∈ assigned
    rw [List.mem_append, hlayers]
  rw [hunion, Set.disjoint_union_right]

/-- The layers of the nodes do not overlap, with one another nor with those that were assigned
    before. -/
theorem exists_validateNodes (hclasses : classes.Lawful) {indexed : List (String × ℕ)}
    {assigned : List ℕ} :
    (∃ reports, validateNodes classes log records before indexed assigned = .ok reports) ↔
      (∀ entry ∈ indexed, NodeShown classes log records before entry.1 ("RPC" ++ toString entry.2) ∧
        Disjoint (layersOf classes log ("RPC" ++ toString entry.2)) {layer | layer ∈ assigned}) ∧
      indexed.Pairwise (fun x y => Disjoint (layersOf classes log ("RPC" ++ toString x.2))
        (layersOf classes log ("RPC" ++ toString y.2))) := by
  -- on the nodes: what is assigned grows by the layers of each one
  induction indexed generalizing assigned with
  | nil => simp [validateNodes]
  | cons entry rest ih =>
    simp only [validateNodes_cons_eq_ok, List.forall_mem_cons, List.pairwise_cons]
    constructor
    · rintro ⟨_, report, reports, hreport, hreports, rfl⟩
      obtain ⟨hshown, hdisjoint, hlayers⟩ := shown_of_validateNode hclasses hreport
      obtain ⟨hrest, hpairwise⟩ := ih.mp ⟨reports, hreports⟩
      have happend : ∀ other ∈ rest,
          Disjoint (layersOf classes log ("RPC" ++ toString other.2))
            (layersOf classes log ("RPC" ++ toString entry.2)) ∧
          Disjoint (layersOf classes log ("RPC" ++ toString other.2))
            {layer | layer ∈ assigned} :=
        fun other hother => (disjoint_append hlayers).mp (hrest other hother).2
      refine ⟨⟨⟨hshown, hdisjoint⟩, fun other hother => ?_⟩, fun other hother => ?_, hpairwise⟩
      · exact ⟨(hrest other hother).1, (happend other hother).2⟩
      · exact (happend other hother).1.symm
    · rintro ⟨⟨⟨hshown, hdisjoint⟩, hrest⟩, hfirst, hpairwise⟩
      obtain ⟨report, hreport⟩ := exists_validateNode hclasses hshown hdisjoint
      have hlayers := (shown_of_validateNode hclasses hreport).2.2
      have happend : ∀ other ∈ rest,
          NodeShown classes log records before other.1 ("RPC" ++ toString other.2) ∧
          Disjoint (layersOf classes log ("RPC" ++ toString other.2))
            {layer | layer ∈ report.layers ++ assigned} := by
        intro other hother
        refine ⟨(hrest other hother).1, (disjoint_append hlayers).mpr ?_⟩
        exact ⟨(hfirst other hother).symm, (hrest other hother).2⟩
      obtain ⟨reports, hreports⟩ := ih.mpr ⟨happend, hpairwise⟩
      exact ⟨_, report, reports, hreport, hreports, rfl⟩

/-- The report of a node is about its record. -/
theorem lookup_validateNodes {indexed : List (String × ℕ)} {assigned : List ℕ}
    {reports : List (String × WorkerReport)}
    (h : validateNodes classes log records before indexed assigned = .ok reports) :
    ∀ node ∈ indexed.map Prod.fst, ∃ record report, records.lookup node = some record ∧
      reports.lookup node = some report ∧
      ∃ layers calls budgetMib, report = workerReport record layers calls budgetMib := by
  induction indexed generalizing assigned reports with
  | nil => simp
  | cons entry rest ih =>
    obtain ⟨report, reports, hreport, hreports, rfl⟩ := validateNodes_cons_eq_ok.mp h
    obtain ⟨layers, record, budgetMib, -, hrecord, -, -, -, rfl⟩ := validateNode_eq_ok.mp hreport
    intro node hnode
    by_cases heq : node = entry.1
    · subst heq
      exact ⟨record, _, hrecord, List.lookup_cons_self, _, _, _, rfl⟩
    · have hrest : node ∈ rest.map Prod.fst := by
        rw [List.map_cons, List.mem_cons] at hnode
        exact hnode.resolve_left heq
      obtain ⟨record', report', hrecord', hreport', hfields⟩ := ih hreports node hrest
      refine ⟨record', report', hrecord', ?_, hfields⟩
      rw [OrderedDict.lookup_cons, if_neg heq, hreport']

/-! ### Phones and builds -/

/-- The phones of a run on physical devices. -/
structure PhysicalPhones (isLoopback : String → Option Bool) (android iphone : Record) : Prop where
  platforms : Dict.get android.hello "platform" = .str "android" ∧
    Dict.get iphone.hello "platform" = .str "ios"
  simulators : (Dict.get android.hello "simulator").truthy = false ∧
    (Dict.get iphone.hello "simulator").truthy = false
  /-- their addresses are read, and are not local -/
  addresses : isLoopback android.peer = some false ∧ isLoopback iphone.peer = some false
  distinct : android.peer ≠ iphone.peer

/-- A phone passes exactly if it is no simulator and its address is read and not local. -/
theorem validatePhone_eq_ok {isLoopback : String → Option Bool} (node : String)
    {report : WorkerReport} :
    validatePhone isLoopback node report = .ok () ↔
      report.simulator.truthy = false ∧ isLoopback report.peer = some false := by
  unfold validatePhone
  split
  case isTrue h => simp [h]
  case isFalse h =>
    rw [Bool.not_eq_true] at h
    split
    case h_1 hloopback => simp [h, hloopback]
    case h_2 hloopback => simp [h, hloopback]
    case h_3 hloopback => simp [h, hloopback]

/-- The physical checks pass exactly for two phones of the right platforms, at two addresses that
    are not local. -/
theorem validatePhysical_eq_ok {isLoopback : String → Option Bool}
    {reports : List (String × WorkerReport)} {android iphone : Record}
    {layers layers' : List ℕ} {calls calls' : ℤ} {budgetMib budgetMib' : Json}
    (handroid : reports.lookup "android" = some (workerReport android layers calls budgetMib))
    (hiphone : reports.lookup "iphone" = some (workerReport iphone layers' calls' budgetMib')) :
    validatePhysical isLoopback reports = .ok () ↔ PhysicalPhones isLoopback android iphone := by
  -- one phone, and then the rest of the checks
  have hphone : ∀ (node : String) (report : WorkerReport) (rest : Except String Unit),
      (validatePhone isLoopback node report >>= fun _ => rest) = .ok () ↔
        (report.simulator.truthy = false ∧ isLoopback report.peer = some false) ∧
          rest = .ok () := by
    intro node report rest
    rw [← validatePhone_eq_ok node]
    cases validatePhone isLoopback node report with
    | error text => exact iff_of_false (by simp [bind, Except.bind]) (by simp)
    | ok _ => simp [bind, Except.bind]
  unfold validatePhysical
  rw [handroid, hiphone]
  dsimp only
  split
  case isTrue h =>
    refine iff_of_false (by simp) fun hphones => ?_
    simp [workerReport, hphones.platforms, Json.isStr] at h
  case isFalse h =>
    simp only [Bool.or_eq_true, Bool.not_eq_true', not_or, Bool.not_eq_false, Json.isStr_iff] at h
    rw [hphone, hphone]
    constructor
    · rintro ⟨hfirst, hsecond, hdistinct⟩
      split at hdistinct
      case isTrue => cases hdistinct
      case isFalse hne =>
        exact ⟨h, ⟨hfirst.1, hsecond.1⟩, ⟨hfirst.2, hsecond.2⟩, hne⟩
    · rintro ⟨-, hsimulators, haddresses, hdistinct⟩
      exact ⟨⟨hsimulators.1, haddresses.1⟩, ⟨hsimulators.2, haddresses.2⟩, if_neg hdistinct⟩

/-- A component names the commit: the coordinator, the probe, or one of the workers. -/
def Names (kitBuild : Dict) (records : Dictionary String Record) (probe : Json)
    (commit : String) : Prop :=
  kitBuild.get "commit" = .str commit ∨ probe = .str commit ∨
    ∃ node record, records.lookup node = some record ∧
      Dict.get record.hello "build" = .str commit

/-- The stamps that `build_summary` makes name the commits of the components. -/
theorem knownCommit_stamps {kitBuild : Dict} {probe : Json} {commit : String} :
    (∃ stamp ∈ ("coordinator", kitBuild) :: ("probe", [("commit", probe)]) ::
        records.entries.map (fun entry =>
          (entry.1 ++ "-worker", [("commit", Dict.get entry.2.hello "build")])),
      knownCommit stamp.2 = some commit) ↔
        Names kitBuild records probe commit ∧ IsKnown commit := by
  have hget : ∀ value : Json, Dict.get [("commit", value)] "commit" = value := fun value => rfl
  simp only [List.exists_mem_cons_iff, List.mem_map, exists_exists_and_eq_and, knownCommit_eq_some,
    hget, Names, or_and_right]
  apply or_congr_right
  apply or_congr_right
  constructor
  · rintro ⟨⟨node, record⟩, hmem, hcommit, hknown⟩
    exact ⟨⟨node, record, AList.mem_lookup_iff.mpr hmem, hcommit⟩, hknown⟩
  · rintro ⟨⟨node, record, hlookup, hcommit⟩, hknown⟩
    exact ⟨⟨node, record⟩, AList.mem_lookup_iff.mp hlookup, hcommit, hknown⟩

/-- The builds match exactly if no two components name different commits that are known. -/
theorem mismatch_buildSummary {kitBuild : Dict} {probe : Json} :
    (buildSummary kitBuild records probe).mismatch = false ↔
      ∀ commit commit', Names kitBuild records probe commit → Names kitBuild records probe commit' →
        IsKnown commit → IsKnown commit' → commit = commit' := by
  rw [← Bool.not_eq_true, buildSummary, mismatch_compare]
  simp only [knownCommit_stamps]
  constructor
  · intro h commit commit' hnames hnames' hknown hknown'
    by_contra hne
    exact h ⟨commit, commit', ⟨hnames, hknown⟩, ⟨hnames', hknown'⟩, hne⟩
  · rintro h ⟨commit, commit', ⟨hnames, hknown⟩, ⟨hnames', hknown'⟩, hne⟩
    exact hne (h commit commit' hnames hnames' hknown hknown')

/-- The check of the builds passes exactly if none of them mismatch. -/
theorem validateBuild_eq_ok {build : BuildSummary} :
    validateBuild (some build) = .ok () ↔ build.mismatch = false := by
  unfold validateBuild
  dsimp only
  split
  case isTrue h =>
    rw [h]
    exact iff_of_false (fun herror => nomatch herror) (by decide)
  case isFalse h => exact iff_of_true rfl (Bool.not_eq_true _ ▸ h)

/-! ### What is accepted -/

/-- What an accepted run has shown, of the tokens, the layers, the graphs, the builds and the
    phones. -/
structure Evidence (classes : CharClasses) (isLoopback : String → Option Bool) (input : ProofInput)
    (kitBuild : Dict) (probe : Json) (records : Dictionary String Record) (before : String → ℕ) :
    Prop where
  tokens : ∃ ids, input.baseline.tokenIds = some ids ∧ ids ≠ [] ∧ input.result = some ids
  assigned : ∀ index < 3, (layersOf classes input.log ("RPC" ++ toString index)).Nonempty
  apart : ∀ i < 3, ∀ j < 3, i ≠ j → Disjoint (layersOf classes input.log ("RPC" ++ toString i))
    (layersOf classes input.log ("RPC" ++ toString j))
  computed : ∀ node ∈ nodes, ∃ record, records.lookup node = some record ∧
    Computed (before node) record
  builds : ∀ commit commit', Names kitBuild records probe commit →
    Names kitBuild records probe commit' → IsKnown commit → IsKnown commit' → commit = commit'
  phones : input.physical = true → ∃ android iphone, records.lookup "android" = some android ∧
    records.lookup "iphone" = some iphone ∧ PhysicalPhones isLoopback android iphone

variable {isLoopback : String → Option Bool} {input : ProofInput}

/-- The checks one behind the other: a run is accepted exactly if each of them passes. -/
theorem validateProof_eq_ok {reports : List (String × WorkerReport)} :
    validateProof classes isLoopback input records before = .ok reports ↔
      (∃ ids, input.baseline.tokenIds = some ids ∧ ids ≠ [] ∧ input.result = some ids) ∧
      validateNodes classes input.log records before nodes.zipIdx [] = .ok reports ∧
      validateBuild input.build = .ok () ∧
      (input.physical = true → validatePhysical isLoopback reports = .ok ()) := by
  have htokens : (¬ (input.baseline.tokenIds.getD [] = [] ∨
      input.result ≠ input.baseline.tokenIds)) ↔
      ∃ ids, input.baseline.tokenIds = some ids ∧ ids ≠ [] ∧ input.result = some ids := by
    cases input.baseline.tokenIds <;> simp
  -- the checks in the order of the code; a failed one is the error
  rw [← htokens]
  unfold validateProof
  split
  case isTrue h => exact iff_of_false (by simp) (fun hand => hand.1 h)
  case isFalse h =>
    rw [and_iff_right h]
    cases validateNodes classes input.log records before nodes.zipIdx [] with
    | error text => simp
    | ok reports' =>
      cases validateBuild input.build with
      | error text => simp
      | ok _ =>
        dsimp only
        cases input.physical with
        | false => simp
        | true =>
          cases hphysical : validatePhysical isLoopback reports' with
          | error text =>
            refine iff_of_false (by simp [Except.map]) ?_
            rintro ⟨heq, -, h⟩
            obtain rfl := Except.ok.inj heq
            simp [hphysical] at h
          | ok _ =>
            simp only [if_true, Except.map, Except.ok.injEq, true_and, forall_const]
            constructor
            · rintro rfl
              exact ⟨rfl, hphysical⟩
            · exact fun h => h.1

/-- There is a node for each of the three devices. -/
theorem exists_indexed {index : ℕ} (hindex : index < 3) : ∃ node, (node, index) ∈ nodes.zipIdx := by
  have hlength : index < nodes.length := hindex
  exact ⟨nodes[index], List.mem_zipIdx_iff_getElem?.mpr (List.getElem?_eq_getElem hlength)⟩

/-- The nodes in pairs are the devices in pairs. -/
theorem pairwise_indexed (p : ℕ → Set ℕ) :
    nodes.zipIdx.Pairwise (fun x y => Disjoint (p x.2) (p y.2)) ↔
      ∀ i < 3, ∀ j < 3, i ≠ j → Disjoint (p i) (p j) := by
  rw [List.pairwise_iff_getElem]
  simp only [List.getElem_zipIdx, List.length_zipIdx, Nat.zero_add]
  constructor
  · intro h i hi j hj hne
    rcases Nat.lt_or_gt_of_ne hne with hlt | hlt
    · exact h i j hi hj hlt
    · exact (h j i hj hi hlt).symm
  · exact fun h i j hi hj hlt => h i hi j hj (Nat.ne_of_lt hlt)

/-- What is accepted has been shown, and the log could be read for every node. -/
theorem evidence_of_validateProof (hclasses : classes.Lawful) {kitBuild : Dict} {probe : Json}
    (hbuild : input.build = some (buildSummary kitBuild records probe))
    {reports : List (String × WorkerReport)}
    (h : validateProof classes isLoopback input records before = .ok reports) :
    Evidence classes isLoopback input kitBuild probe records before ∧
      ∀ index < 3, Readable classes input.log ("RPC" ++ toString index) := by
  obtain ⟨htokens, hreports, hbuilds, hphysical⟩ := validateProof_eq_ok.mp h
  rw [hbuild, validateBuild_eq_ok, mismatch_buildSummary] at hbuilds
  obtain ⟨hshown, hpairwise⟩ := (exists_validateNodes hclasses).mp ⟨reports, hreports⟩
  have hdevice : ∀ index < 3, ∃ node, NodeShown classes input.log records before node
      ("RPC" ++ toString index) := by
    intro index hindex
    obtain ⟨node, hnode⟩ := exists_indexed hindex
    exact ⟨node, (hshown _ hnode).1⟩
  refine ⟨{ tokens := htokens, assigned := ?_, apart := ?_, computed := ?_, builds := hbuilds,
            phones := ?_ }, ?_⟩
  · intro index hindex
    obtain ⟨node, h⟩ := hdevice index hindex
    exact h.assigned
  · exact (pairwise_indexed (fun index =>
      layersOf classes input.log ("RPC" ++ toString index))).mp hpairwise
  · intro node hnode
    obtain ⟨index, hindex⟩ := List.mem_iff_getElem?.mp hnode
    obtain ⟨record, hrecord, hcomputed, -⟩ :=
      (hshown (node, index) (List.mem_zipIdx_iff_getElem?.mpr hindex)).1.computed
    exact ⟨record, hrecord, hcomputed⟩
  · intro hflag
    have hlookup := lookup_validateNodes hreports
    obtain ⟨android, _, handroid, hreport, _, _, _, rfl⟩ := hlookup "android" (by decide)
    obtain ⟨iphone, _, hiphone, hreport', _, _, _, rfl⟩ := hlookup "iphone" (by decide)
    exact ⟨android, iphone, handroid, hiphone,
      (validatePhysical_eq_ok hreport hreport').mp (hphysical hflag)⟩
  · intro index hindex
    obtain ⟨node, h⟩ := hdevice index hindex
    exact h.readable

/-- What has been shown is accepted, if every worker says what its budget is. -/
theorem validateProof_of_evidence (hclasses : classes.Lawful) {kitBuild : Dict} {probe : Json}
    (hbuild : input.build = some (buildSummary kitBuild records probe))
    (hbudget : ∀ node record, records.lookup node = some record →
      (record.hello.lookup "budget_mib").isSome = true)
    (h : Evidence classes isLoopback input kitBuild probe records before)
    (hreadable : ∀ index < 3, Readable classes input.log ("RPC" ++ toString index)) :
    ∃ reports, validateProof classes isLoopback input records before = .ok reports := by
  obtain ⟨htokens, hassigned, hapart, hcomputed, hbuilds, hphones⟩ := h
  have hshown : ∀ entry ∈ nodes.zipIdx,
      NodeShown classes input.log records before entry.1 ("RPC" ++ toString entry.2) ∧
      Disjoint (layersOf classes input.log ("RPC" ++ toString entry.2))
        {layer | layer ∈ ([] : List ℕ)} := by
    rintro ⟨node, index⟩ hentry
    have hnode := List.mem_zipIdx_iff_getElem?.mp hentry
    have hindex : index < 3 := (List.getElem?_eq_some_iff.mp hnode).1
    obtain ⟨record, hrecord, hcomputed⟩ := hcomputed node (List.mem_of_getElem? hnode)
    exact ⟨⟨hreadable index hindex, hassigned index hindex, record, hrecord, hcomputed,
      hbudget node record hrecord⟩, by simp⟩
  obtain ⟨reports, hreports⟩ :=
    (exists_validateNodes hclasses).mpr ⟨hshown, (pairwise_indexed _).mpr hapart⟩
  rw [← mismatch_buildSummary, ← validateBuild_eq_ok, ← hbuild] at hbuilds
  refine ⟨reports, validateProof_eq_ok.mpr ⟨htokens, hreports, hbuilds, fun hflag => ?_⟩⟩
  obtain ⟨android, iphone, handroid, hiphone, hphones⟩ := hphones hflag
  have hlookup := lookup_validateNodes hreports
  obtain ⟨_, _, handroid', hreport, _, _, _, rfl⟩ := hlookup "android" (by decide)
  obtain ⟨_, _, hiphone', hreport', _, _, _, rfl⟩ := hlookup "iphone" (by decide)
  obtain rfl := Option.some.inj (handroid.symm.trans handroid')
  obtain rfl := Option.some.inj (hiphone.symm.trans hiphone')
  exact (validatePhysical_eq_ok hreport hreport').mpr hphones

/-- **The proof of a split run.**  For the records that a relay has built, `validate_proof` accepts
    exactly the evidence it is there to see, if no layer number of the log is too long. -/
theorem validate_proof (hclasses : classes.Lawful) {config : Config}
    {loads : List UInt8 → Option Json} {ls : List Label} {s : Relay}
    (hrun : Relay.Run config loads ls s) (isLoopback : String → Option Bool) (input : ProofInput)
    (kitBuild : Dict) (probe : Json) (before : String → ℕ)
    (hbuild : input.build = some (buildSummary kitBuild s.nodes probe)) :
    (∃ reports, validateProof classes isLoopback input s.nodes before = .ok reports) ↔
      Evidence classes isLoopback input kitBuild probe s.nodes before ∧
        ∀ index < 3, Readable classes input.log ("RPC" ++ toString index) := by
  -- a worker is let in only if it says what its budget is
  have hbudget : ∀ node record, s.nodes.lookup node = some record →
      (record.hello.lookup "budget_mib").isSome = true := by
    intro node record hrecord
    obtain ⟨pair, hhello⟩ := Relay.record_hello hrun node record hrecord
    have hnumber := hhello.budget
    rw [Dict.get, Dict.getD] at hnumber
    cases hlookup : record.hello.lookup "budget_mib" with
    | none => simp [hlookup, Json.isInt, Json.number] at hnumber
    | some budgetMib => rfl
  constructor
  · rintro ⟨reports, hreports⟩
    exact evidence_of_validateProof hclasses hbuild hreports
  · rintro ⟨hevidence, hreadable⟩
    exact validateProof_of_evidence hclasses hbuild hbudget hevidence hreadable

end

/-! ### Three workers, two of them phones -/

open SplitRun

/-- The character classes of ASCII texts are lawful. -/
theorem asciiClasses_lawful : asciiClasses.Lawful where
  isSpace_of_isAlpha := by
    intro c hc
    refine decide_eq_false ?_
    rintro (rfl | rfl) <;> exact absurd hc (by decide)
  isDigit_of_isAlpha := by
    intro c hc
    have hletter : (decide (65 ≤ c.val ∧ c.val ≤ 90) ||
        decide (97 ≤ c.val) && decide (c.val ≤ 122)) = true := hc
    have hdigit : c.isDigit = false := by
      show (decide (48 ≤ c.val) && decide (c.val ≤ 57)) = false
      grind
    simp [CharClasses.isDigit, asciiClasses, hdigit]
  isWord_of_isAlphanum := by
    intro c hc
    simp [asciiClasses, hc]
  isSpace_of_isDigit := by
    intro c hc
    refine decide_eq_false ?_
    rintro (rfl | rfl) <;> exact absurd hc (by decide)

/-- The workers also say what they run on and from which build. -/
def phoneLoads (bytes : List UInt8) : Option Json :=
  match bytes with
  | [1, i] =>
      let platform := if i = 1 then "android" else if i = 2 then "ios" else "linux"
      some (.dict (sender i "control" ++
        [("platform", .str platform), ("build", .str "c0ffee")]))
  | bytes => lineLoads bytes

/-- What the relay does in a split run, with workers that have addresses of their own. -/
def onLan : SplitAction → Option Action
  | .relay (.connect c plain _) => some (.connect c plain ("10.0.0." ++ toString c))
  | .relay action => some action
  | _ => none

/-- Three nodes join from the network, carry a byte in each direction, and report their graph
    calls. -/
def lanRun : List Action :=
  (join 0 ++ join 1 ++ join 2 ++ transfer 0 "laptop" ++ transfer 1 "android" ++
    transfer 2 "iphone" ++ report 0 "laptop" 5 ++ report 1 "android" 43 ++
    report 2 "iphone" 40).filterMap onLan

/-- The build that the components of this run have in common. -/
def lanBuild : Dict := [("commit", .str "c0ffee")]

/-- The input of a proof on physical devices, of which only the log is open. -/
def lanInput (log : String) (records : Dictionary String Record) : ProofInput where
  baseline := ⟨some [1, 2], true⟩
  result := some [1, 2]
  log := log
  physical := true
  build := some (buildSummary lanBuild records (.str "c0ffee"))

/-- The run is accepted with the log of three layers. -/
theorem lanRun_accepted : ∃ ls s, Relay.Run threeNodes phoneLoads ls s ∧
    (∀ node ∈ nodes, node ∈ s.nodes) ∧ ∃ reports,
      validateProof asciiClasses (fun _ => some false) (lanInput threeLayers.log s.nodes) s.nodes
        (fun _ => 0) = .ok reports := by
  have hperform : (Trace.perform (Relay.step threeNodes phoneLoads) Relay.init lanRun).map
      (fun result => (nodes.all (fun node => decide (node ∈ result.2.nodes)),
        (validateProof asciiClasses (fun _ => some false) (lanInput threeLayers.log result.2.nodes)
          result.2.nodes (fun _ => 0)).toOption.isSome)) = some (true, true) := by
    decide +kernel
  obtain ⟨⟨ls, s⟩, hrun, heq⟩ := Option.map_eq_some_iff.mp hperform
  obtain ⟨hnodes, haccept⟩ := Prod.mk.inj heq
  refine ⟨ls, s, Trace.of_perform hrun, by simpa using hnodes, ?_⟩
  dsimp only at haccept
  cases hproof : validateProof asciiClasses (fun _ => some false)
      (lanInput threeLayers.log s.nodes) s.nodes (fun _ => 0) with
  | error text =>
    rw [hproof] at haccept
    cases haccept
  | ok reports => exact ⟨reports, rfl⟩

/-- The evidence of this run, which the relay reaches by its own steps. -/
theorem validate_proof_three_layers : ∃ ls s, Relay.Run threeNodes phoneLoads ls s ∧
    Evidence asciiClasses (fun _ => some false) (lanInput threeLayers.log s.nodes) lanBuild
      (.str "c0ffee") s.nodes (fun _ => 0) := by
  obtain ⟨ls, s, hrun, -, haccept⟩ := lanRun_accepted
  exact ⟨ls, s, hrun, ((validate_proof asciiClasses_lawful hrun _ _ _ _ _ rfl).mp haccept).1⟩

/-! ### A layer number that cannot be read -/

/-- A line that assigns a layer, and the rest of the log. -/
def layerLine (digits : List Char) (index : ℕ) (rest : List Char) : List Char :=
  "layer".toList ++ ([' '] ++ (digits ++ ([' '] ++
    ("assigned to device ".toList ++ (("RPC" ++ toString index).toList ++ '\n' :: rest)))))

/-- The layers of the log below: the number of the first one has 4301 digits. -/
def longDigits (index : ℕ) : List Char :=
  if index = 0 then List.replicate (maxStrDigits + 1) '1' else if index = 1 then ['1'] else ['2']

/-- A log with three layers whose numbers are longer than `int` reads. -/
def longLog : List Char :=
  layerLine (longDigits 0) 0 (layerLine (longDigits 1) 1 (layerLine (longDigits 2) 2 []))

/-- Every one of the long numbers consists of digits. -/
theorem longDigits_digits (index : ℕ) :
    longDigits index ≠ [] ∧ ∀ c ∈ longDigits index, asciiClasses.isDigit c = true := by
  unfold longDigits
  split
  · refine ⟨by simp, fun c hc => ?_⟩
    rw [List.eq_of_mem_replicate hc]
    decide
  · split <;> simp <;> decide

/-- A line of the log assigns the long number to its device. -/
theorem layerLine_longDigits (index : ℕ) (rest : List Char) :
    LayerLine asciiClasses (longDigits index) (layerLine (longDigits index) index rest)
      (("RPC" ++ toString index).toList ++ '\n' :: rest) :=
  have hspaces : ∀ c ∈ [' '], asciiClasses.isSpace c = true := by
    intro c hc
    rw [List.mem_singleton.mp hc]
    decide
  .intro (by simp) hspaces (longDigits_digits index).1 (longDigits_digits index).2 (by simp) hspaces

/-- The first three indices are written differently. -/
theorem toString_inj {i j : ℕ} (hi : i < 3) (hj : j < 3) (h : toString i = toString j) : i = j := by
  have hall : ∀ i < 3, ∀ j < 3, toString i = toString j → i = j := by decide
  exact hall i hi j hj h

/-- A line stands in front of whatever follows it. -/
theorem layerLine_append (digits : List Char) (index : ℕ) (rest : List Char) :
    layerLine digits index rest = layerLine digits index [] ++ rest := by
  simp only [layerLine, List.append_assoc, List.cons_append, List.nil_append]

/-- What a log assigns it assigns with any text in front of it. -/
theorem Assigns.append {classes : CharClasses} {log digits : List Char} {device : String}
    (h : Assigns classes log device digits) (front : List Char) :
    Assigns classes (front ++ log) device digits := by
  obtain ⟨before, found, after, rfl, hline, hname⟩ := h
  exact ⟨front ++ before, found, after, (List.append_assoc ..).symm, hline, hname⟩

/-- What the log assigns to each of the three nodes: one index. -/
theorem assigns_longLog {index : ℕ} (hindex : index < 3) {digits : List Char} :
    Assigns asciiClasses longLog ("RPC" ++ toString index) digits ↔ digits = longDigits index := by
  have hword : asciiClasses.isWord '\n' = false := by decide
  have hnil : ¬ Assigns asciiClasses [] ("RPC" ++ toString index) digits := by
    rintro ⟨before, found, after, heq, hline, -⟩
    obtain ⟨inner, rfl, -⟩ := hline.starts asciiClasses_lawful
    simp at heq
  have hfirst : ∀ i rest, Assigns asciiClasses (layerLine (longDigits i) i rest)
      ("RPC" ++ toString i) (longDigits i) := fun i rest =>
    ⟨[], _, _, rfl, layerLine_longDigits i rest,
      takeWhile_append_stops (isWord_device asciiClasses_lawful) (stops_cons.mpr hword)⟩
  constructor
  · intro h
    rcases assigns_line asciiClasses_lawful (layerLine_longDigits 0 _) hword h with ⟨hname, rfl⟩ | h
    · rw [toString_inj hindex (by decide) hname]
    rcases assigns_line asciiClasses_lawful (layerLine_longDigits 1 _) hword h with ⟨hname, rfl⟩ | h
    · rw [toString_inj hindex (by decide) hname]
    rcases assigns_line asciiClasses_lawful (layerLine_longDigits 2 _) hword h with ⟨hname, rfl⟩ | h
    · rw [toString_inj hindex (by decide) hname]
    · exact absurd h hnil
  · rintro rfl
    unfold longLog
    match index, hindex with
    | 0, _ => exact hfirst 0 _
    | 1, _ =>
      rw [layerLine_append]
      exact (hfirst 1 _).append _
    | 2, _ =>
      rw [layerLine_append, layerLine_append (longDigits 1)]
      exact ((hfirst 2 _).append _).append _

/-- The value of digits is at least what was read of them before. -/
theorem le_foldl_digits (digits : List Char) (n : ℕ) :
    n ≤ digits.foldl (fun n c => 10 * n + (asciiClasses.digit c).getD 0) n := by
  induction digits generalizing n with
  | nil => exact le_rfl
  | cons c digits ih =>
    rw [List.foldl_cons]
    exact le_trans (by omega) (ih _)

/-- The first number is more than ten, the others are one and two. -/
theorem value_longDigits : 10 < asciiClasses.value (longDigits 0) ∧
    asciiClasses.value (longDigits 1) = 1 ∧ asciiClasses.value (longDigits 2) = 2 := by
  refine ⟨?_, by decide, by decide⟩
  have hlong : longDigits 0 = '1' :: '1' :: List.replicate 4299 '1' := rfl
  rw [hlong, CharClasses.value, List.foldl_cons, List.foldl_cons]
  exact le_foldl_digits _ _

/-- The first line assigns a layer with a number of 4301 digits.  `int` refuses to read it, and the
    run is not accepted although it has shown everything. -/
theorem unreadable_layer :
    ¬ ∀ (classes : CharClasses) (isLoopback : String → Option Bool) (config : Config)
      (loads : List UInt8 → Option Json) (ls : List Label) (s : Relay) (input : ProofInput)
      (kitBuild : Dict) (probe : Json) (before : String → ℕ), classes.Lawful →
      Relay.Run config loads ls s → (∀ node ∈ nodes, node ∈ s.nodes) →
      input.build = some (buildSummary kitBuild s.nodes probe) →
      ((∃ reports, validateProof classes isLoopback input s.nodes before = .ok reports) ↔
        Evidence classes isLoopback input kitBuild probe s.nodes before) := by
  intro hclaim
  obtain ⟨ls, s, hrun, hnodes, reports, hreports⟩ := lanRun_accepted
  obtain ⟨-, -, -, hcomputed, hbuilds, hphones⟩ :=
    (evidence_of_validateProof asciiClasses_lawful rfl hreports).1
  have hevidence : Evidence asciiClasses (fun _ => some false)
      (lanInput (String.ofList longLog) s.nodes) lanBuild (.str "c0ffee") s.nodes (fun _ => 0) := by
    refine ⟨⟨[1, 2], rfl, by decide, rfl⟩, fun index hindex => ?_, fun i hi j hj hne => ?_,
      hcomputed, hbuilds, fun _ => hphones rfl⟩
    · exact ⟨_, longDigits index, by simpa [lanInput] using (assigns_longLog hindex).mpr rfl, rfl⟩
    · rw [Set.disjoint_left]
      rintro layer ⟨digits, hdigits, rfl⟩ ⟨digits', hdigits', heq⟩
      simp only [lanInput, String.toList_ofList] at hdigits hdigits'
      rw [(assigns_longLog hi).mp hdigits, (assigns_longLog hj).mp hdigits'] at heq
      obtain ⟨hzero, hone, htwo⟩ := value_longDigits
      interval_cases i <;> interval_cases j <;> omega
  obtain ⟨reports', hreports'⟩ := (hclaim asciiClasses (fun _ => some false) threeNodes phoneLoads
    ls s (lanInput (String.ofList longLog) s.nodes) lanBuild (.str "c0ffee") (fun _ => 0)
    asciiClasses_lawful hrun hnodes rfl).mpr hevidence
  have hreadable := (evidence_of_validateProof asciiClasses_lawful rfl hreports').2 0 (by decide)
    (longDigits 0) (by simpa [lanInput] using (assigns_longLog (by decide)).mpr rfl)
  have hlength : (longDigits 0).length = maxStrDigits + 1 := List.length_replicate
  omega

end ShareCompute.Cluster
