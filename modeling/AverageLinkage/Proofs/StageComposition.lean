import Mathlib
import AverageLinkage.Proofs.Affinity
import AverageLinkage.Proofs.Outcome
import AverageLinkage.Proofs.StageRuns

/-!
# The stages compose

What the first stage writes, the second stage can read and cluster: the affinity graph of a
table is read back unchanged from its text, and it meets all that clustering asks of a graph.
So the second stage can only fail to write its own output.
-/

namespace AverageLinkage

/-- Sound edges are what clustering asks for. -/
theorem Graph.proper_of_sound {graph : Graph Float}
    (hsound : ∀ edge ∈ graph.edges, edge.Sound graph.nodeCount) : graph.Proper :=
  fun edge hmem =>
    ⟨(hsound edge hmem).ne, (hsound edge hmem).source_lt, (hsound edge hmem).target_lt⟩

namespace Attempt

theorem affinityOutput_eq_ok [Exponential] {tablePath : String} {kernel : Kernel}
    {directory : Directory} {input : Input} {table : DistanceTable}
    (hopen : directory.openInput tablePath = .ok input)
    (hread : DistanceTable.read input = .ok table) :
    affinityOutput tablePath kernel (directory.openInput tablePath) = .ok (kernel.graph table) :=
  affinityOutput_eq_ok_iff.mpr ⟨input, table, hopen, hread, rfl⟩

theorem clusterOutput_eq_ok {graphPath : String} {directory : Directory} {input : Input}
    {graph : Graph Float} {linkage : Linkage Float}
    (hopen : directory.openInput graphPath = .ok input) (hread : Graph.read input = .ok graph)
    (hcluster : graph.cluster = .ok linkage) :
    clusterOutput graphPath (directory.openInput graphPath) = .ok linkage.forest :=
  clusterOutput_eq_ok_iff.mpr ⟨input, graph, linkage, hopen, hread, hcluster, rfl⟩

/-- The first stage succeeds on a table if its output can be created and filled. -/
theorem runs_affinityStage [Exponential] (kernel : Kernel) {tablePath graphPath : String}
    {before created after : Directory} {input : Input} {table : DistanceTable}
    (hopen : before.openInput tablePath = .ok input)
    (hread : DistanceTable.read input = .ok table)
    (hcreate : before.store graphPath [] = .ok created)
    (hfill : created.store graphPath (Text.encode (kernel.graph table).render) = .ok after) :
    Runs (affinityStage tablePath graphPath kernel) before (.ok (kernel.graph table).totals)
      after := by
  obtain ⟨result, last, hruns⟩ := exists_runs (affinityStage tablePath graphPath kernel) before
  have hwrites := writes_affinityStage hruns
  rw [affinityOutput_eq_ok hopen hread] at hwrites
  obtain ⟨outcome, hwritten, rfl⟩ := hwrites
  obtain ⟨cause, hfault, -⟩ | ⟨middle, hmiddle, hcases⟩ := hwritten.writeOutput_cases
  · rw [hcreate] at hfault
    cases hfault
  · obtain rfl := Except.ok.inj (hcreate.symm.trans hmiddle)
    obtain ⟨hstored, rfl⟩ | ⟨cause, hfault, -⟩ := hcases
    · obtain rfl := Except.ok.inj (hfill.symm.trans hstored)
      exact hruns
    · rw [hfill] at hfault
      cases hfault

/-- A file that the first stage has written holds the text of the affinity graph. -/
theorem content_of_affinityStage [Exponential] {tablePath graphPath : String} {kernel : Kernel}
    {before after : Directory} {totals : GraphTotals} {graph : Graph Float}
    {location : Location} {content : Text.Bytes}
    (hgraph : affinityOutput tablePath kernel (before.openInput tablePath) = .ok graph)
    (hruns : Runs (affinityStage tablePath graphPath kernel) before (.ok totals) after)
    (hfind : after.find graphPath = .ok (location, .file content)) :
    content = Text.encode graph.render := by
  have hwrites := writes_affinityStage hruns
  rw [hgraph] at hwrites
  obtain ⟨written, hwritten, hresult⟩ := hwrites
  obtain ⟨cause, -, rfl, -⟩ | ⟨created, -, ⟨hstored, -⟩ | ⟨cause, -, rfl, -⟩⟩ :=
    hwritten.writeOutput_cases
  · cases hresult
  · obtain ⟨place, -, hfile | ⟨rfl, device, hdevice⟩⟩ := Directory.stores_of_store hstored
    · rw [hfind] at hfile
      cases hfile
      rfl
    · rw [hfind] at hdevice
      cases hdevice
  · cases hresult

/-- A stage with an output ends well or fails to write it. -/
theorem Writes.result_cases {Output Result : Type} {target : String} {text : Output → String}
    {totals : Output → Result} {output : Output} {before after : Directory}
    {result : Except Failure Result}
    (hwrites : Writes target text totals (.ok output) before result after) :
    result = .ok (totals output) ∨ ∃ cause, result = .error (.file target cause) := by
  obtain ⟨written, hwritten, rfl⟩ := hwrites
  obtain ⟨cause, -, rfl, -⟩ | ⟨created, -, ⟨-, rfl⟩ | ⟨cause, -, rfl, -⟩⟩ :=
    hwritten.writeOutput_cases
  · exact .inr ⟨cause, rfl⟩
  · exact .inl rfl
  · exact .inr ⟨cause, rfl⟩

/-- The affinity graph of a table that was read, under a kernel that was accepted, is read
back from its text and clusters, as long as its nodes and clusters have identifiers and its
edge count is a word.  All that this takes of the exponential is that it is finite where
affinities are computed.  A file written by the first stage therefore passes through the
second one, which at worst fails to write its output. -/
theorem stages_compose [Exponential] (hexp : Exponential.FiniteOnNegatives) {bytes : Text.Bytes}
    {table : DistanceTable} {options : Kernel.Options} {kernel : Kernel}
    (hread : DistanceTable.read (Input.ofBytes bytes) = .ok table)
    (hkernel : Kernel.ofOptions options = .ok kernel)
    (hnodes : 2 * table.size ≤ Linkage.idLimit)
    (hedges : (kernel.graph table).edgeCount ≤ Natural.wordLimit) :
    ∃ graph linkage,
      Graph.read (Input.ofBytes (Text.encode (kernel.graph table).render)) = .ok graph ∧
      graph = kernel.graph table ∧
      graph.cluster = .ok linkage ∧ (kernel.graph table).cluster = .ok linkage ∧
      ∀ (tablePath graphPath forestPath : String) (layout : MergeForest.Layout)
        (before written after : Directory) (totals : GraphTotals) (location : Location)
        (content : Text.Bytes) (result : Except Failure ForestTotals),
        before.openInput tablePath = .ok (Input.ofBytes bytes) →
        Runs (affinityStage tablePath graphPath kernel) before (.ok totals) written →
        written.find graphPath = .ok (location, .file content) →
        Runs (clusterStage graphPath forestPath layout) written result after →
        result = .ok linkage.forest.totals ∨ ∃ cause, result = .error (.file forestPath cause) := by
  have hsound : ∀ edge ∈ (kernel.graph table).edges, edge.Sound (kernel.graph table).nodeCount :=
    Kernel.sound_of_mem_edges hexp (Kernel.variance_of_ofOptions hkernel)
  have hwords : (kernel.graph table).nodeCount ≤ Natural.wordLimit :=
    Graph.nodeCount_le_wordLimit hnodes
  have hback := Graph.read_render_of_sound hwords hedges hsound
  obtain ⟨linkage, hcluster⟩ :=
    Graph.exists_cluster_iff.mpr ⟨hnodes, Graph.proper_of_sound hsound⟩
  refine ⟨kernel.graph table, linkage, hback, rfl, hcluster, hcluster, ?_⟩
  intro tablePath graphPath forestPath layout before written after totals location content result
    hopen hfirst hfind hsecond
  have hcontent := content_of_affinityStage (affinityOutput_eq_ok hopen hread) hfirst hfind
  have hinput : written.openInput graphPath =
      .ok (Input.ofBytes (Text.encode (kernel.graph table).render)) := by
    rw [Directory.openInput, hfind, hcontent]
    rfl
  have hwrites := writes_clusterStage hsecond
  rw [clusterOutput_eq_ok hinput hback hcluster] at hwrites
  exact hwrites.result_cases

def nearTable : Text.Bytes :=
  Text.encode "0 1 9\n1 0 2\n9 2 0\n"

def nearDirectory : Directory :=
  { entries := [(["home", "work", "table"], .file nearTable)] }

/-- The two near pairs become edges and then merges. -/
theorem stages_compose_near :
    ∃ table kernel, DistanceTable.read (Input.ofBytes nearTable) = .ok table ∧
      Kernel.ofOptions { maxDistance := 5 } = .ok kernel ∧
      2 * table.size ≤ Linkage.idLimit ∧
      (kernel.graph table).edgeCount ≤ Natural.wordLimit ∧
      (kernel.graph table).edges[2]? =
        some { source := 1, target := 2, weight := 0.9988895059442793 } ∧
      ∃ (linkage : Linkage Float) (written : Directory) (totals : GraphTotals)
        (content : Text.Bytes),
        (kernel.graph table).cluster = .ok linkage ∧
        linkage.merges[0]? =
          some { node := 3, left := 0, right := 1, height := 0.9997222607988971 } ∧
        Runs (affinityStage "table" "graph" kernel) nearDirectory (.ok totals) written ∧
        written.find "graph" = .ok (["home", "work", "graph"], .file content) ∧
        ∀ result after, Runs (clusterStage "graph" "forest" .plain) written result after →
          result = .ok linkage.forest.totals ∨ ∃ cause, result = .error (.file "forest" cause) := by
  obtain ⟨⟨rows⟩, hread, hrows⟩ : ∃ table,
      DistanceTable.read (Input.ofBytes nearTable) = .ok table ∧
        table.rows = [[0, 1, 9], [1, 0, 2], [9, 2, 0]] :=
    exists_ok_of_toOption (by decide +kernel)
  subst hrows
  have hkernel : Kernel.ofOptions { maxDistance := 5 } = .ok ⟨5, 3600⟩ := rfl
  have hnodes : 2 * DistanceTable.size ⟨[[0, 1, 9], [1, 0, 2], [9, 2, 0]]⟩ ≤ Linkage.idLimit := by
    decide
  have hedges : (Kernel.graph ⟨5, 3600⟩ ⟨[[0, 1, 9], [1, 0, 2], [9, 2, 0]]⟩).edgeCount ≤
      Natural.wordLimit := by
    decide +kernel
  refine ⟨_, _, hread, hkernel, hnodes, hedges, by decide +kernel, ?_⟩
  obtain ⟨graph, linkage, -, -, -, hcluster, hstages⟩ :=
    stages_compose Exponential.finiteOnNegatives_rounded hread hkernel hnodes hedges
  have hmerge : (Kernel.graph ⟨5, 3600⟩
      ⟨[[0, 1, 9], [1, 0, 2], [9, 2, 0]]⟩).cluster.toOption.map (fun found => found.merges[0]?) =
        some (some { node := 3, left := 0, right := 1, height := 0.9997222607988971 }) := by
    decide +kernel
  rw [hcluster] at hmerge
  have hopen : nearDirectory.openInput "table" = .ok (Input.ofBytes nearTable) := rfl
  have hcreate : nearDirectory.store "graph" [] =
      .ok (nearDirectory.put ["home", "work", "graph"] (.file [])) := rfl
  have hfill : ∀ content,
      (nearDirectory.put ["home", "work", "graph"] (.file [])).store "graph" content =
        .ok (nearDirectory.put ["home", "work", "graph"] (.file content)) := fun _ => rfl
  have hfind : ∀ content,
      (nearDirectory.put ["home", "work", "graph"] (.file content)).find "graph" =
        .ok (["home", "work", "graph"], .file content) := fun _ => rfl
  have hruns := runs_affinityStage ⟨5, 3600⟩ hopen hread hcreate (hfill _)
  refine ⟨linkage, _, _, _, hcluster, Option.some.inj hmerge, hruns, hfind _, ?_⟩
  intro result after hsecond
  exact hstages "table" "graph" "forest" .plain _ _ after _ _ _ result hopen hruns (hfind _)
    hsecond

end Attempt

end AverageLinkage
