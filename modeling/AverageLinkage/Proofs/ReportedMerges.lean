import Mathlib
import AverageLinkage.Proofs.GraphGrammar
import AverageLinkage.Proofs.SafeRun
import AverageLinkage.Stages

/-!
# Reported merges

A run reports every merge when it is made.  The events of a run are followed through the ways
in which work is put together and through the loop of the merges, and then compared with the
forest that the run returns.
-/

namespace AverageLinkage

/-! ## Events -/

namespace Journal

@[simp]
theorem events_log (journal : Journal) (event : Event) :
    (journal.log event).events = journal.events ++ [event] := by
  simp [events, log]

@[simp]
theorem events_enter (journal : Journal) (span : Span) :
    (journal.enter span).events = journal.events := rfl

@[simp]
theorem events_leave (journal : Journal) : journal.leave.events = journal.events := by
  rw [leave]
  split <;> rfl

@[simp]
theorem events_note (journal : Journal) (field : Field) :
    (journal.note field).events = journal.events := by
  rw [note]
  split <;> rfl

end Journal

namespace Attempt

variable {m : Type → Type} [Monad m] {Value Result : Type}

/-- The work succeeds with a value and reports events, whatever the journal says before. -/
def Reports (work : Attempt m Value) (value : Value) (events : List Event) : Prop :=
  ∀ journal : Journal, ∃ after : Journal,
    work.run.run journal = pure (.ok value, after) ∧ after.events = journal.events ++ events

theorem reports_pure (value : Value) : Reports (m := m) (pure value) value [] :=
  fun journal => ⟨journal, rfl, (List.append_nil _).symm⟩

theorem reports_ofExcept {Fault : Type} (asFailure : Fault → Failure)
    {result : Except Fault Value} {value : Value} (hresult : result = .ok value) :
    Reports (m := m) (ofExcept asFailure result) value [] := by
  subst hresult
  exact reports_pure value

section

variable [LawfulMonad m]

theorem run_modify (update : Journal → Journal) (journal : Journal) :
    (modify update : Attempt m Unit).run.run journal = pure (.ok (), update journal) := by
  simp only [modify, modifyGet, MonadStateOf.modifyGet, monadLift, MonadLift.monadLift,
    ExceptT.run_lift, StateT.run_map]
  exact map_pure (fun state : Unit × Journal => (Except.ok state.1, state.2)) ((), update journal)

theorem reports_note (name : String) (value : FieldValue) :
    Reports (m := m) (note name value) () [] :=
  fun journal => ⟨_, run_modify _ journal, by simp⟩

theorem reports_log (event : Event) : Reports (m := m) (log event) () [event] :=
  fun journal => ⟨_, run_modify _ journal, journal.events_log event⟩

theorem Reports.bind {first : Attempt m Value} {next : Value → Attempt m Result} {value : Value}
    {result : Result} {events events' : List Event} (hfirst : Reports first value events)
    (hnext : Reports (next value) result events') :
    Reports (first >>= next) result (events ++ events') := by
  intro journal
  obtain ⟨middle, hmiddle, hevents⟩ := hfirst journal
  obtain ⟨after, hafter, hevents'⟩ := hnext middle
  refine ⟨after, ?_, by rw [hevents', hevents, List.append_assoc]⟩
  rw [ExceptT.run_bind, StateT.run_bind, hmiddle, pure_bind]
  exact hafter

theorem Reports.within {span : Span} {body : Attempt m Value} {value : Value}
    {events : List Event} (hbody : Reports body value events) :
    Reports (Attempt.within span body) value events := by
  intro journal
  obtain ⟨after, hafter, hevents⟩ := hbody (journal.enter span)
  refine ⟨after.leave, ?_, ?_⟩
  · simp [Attempt.within, hafter]
  · rw [Journal.events_leave, hevents, Journal.events_enter]

/-- Merges are reported one by one as they are made: of a run the part of the record that is
new. -/
theorem reports_mergeTimes (expected : Nat) {count : Nat} {start after : Clusters Float}
    (hrun : Clusters.mergeTimes count start = .ok after) :
    Reports (m := m) (mergeTimes expected count start) after
      (((after.merges.toList.drop start.merges.size).zipIdx start.merges.size).map
        fun (merge, step) => mergeEvent step merge) := by
  induction count generalizing start with
  | zero =>
      obtain rfl : start = after := Except.ok.inj hrun
      rw [List.drop_eq_nil_of_le (Nat.le_of_eq Array.length_toList)]
      exact reports_pure start
  | succ count ih =>
      rw [Clusters.mergeTimes] at hrun
      cases hnext : start.step? with
      | none => simp [hnext] at hrun
      | some next =>
          simp only [hnext] at hrun
          obtain ⟨edge, _, rfl⟩ := Option.map_eq_some_iff.mp hnext
          have hsize := Clusters.size_merges_merge start edge
          obtain ⟨made, hback⟩ : ∃ made, (start.merge edge).merges.back? = some made := by
            simp [Clusters.merge]
          have hmade : after.merges.toList[start.merges.size]? = some made := by
            rw [Array.getElem?_toList, Clusters.getElem?_merges_mergeTimes hrun (by omega),
              ← hback, Array.back?_eq_getElem?, hsize, Nat.add_sub_cancel]
          obtain ⟨hlt, hget⟩ := List.getElem?_eq_some_iff.mp hmade
          have hrest := ih hrun
          rw [hsize] at hrest
          rw [mergeTimes, hnext, List.drop_eq_getElem_cons hlt, hget, List.zipIdx_cons,
            List.map_cons]
          simp only [hback]
          exact (reports_log _).bind hrest

/-- A clustering that succeeds returns its forest and reports its merges. -/
theorem reports_clusterGraph {graph : Graph Float} {linkage : Linkage Float}
    (hcluster : graph.cluster = .ok linkage) :
    Reports (m := m) (clusterGraph graph) linkage.forest
      (linkage.merges.toList.zipIdx.map (fun (merge, step) => mergeEvent step merge) ++
        [.say .info .linkage "average-link clustering completed"
          [("components", .count graph.components.count),
            ("merges", .count (graph.nodeCount - graph.components.count)),
            ("total_nodes", .count linkage.forest.size)]]) := by
  obtain ⟨_, hcheck, -⟩ := bind_eq_ok_iff.mp hcluster
  obtain ⟨-, hlinkage⟩ := Graph.proper_of_cluster hcluster
  have hmerges := reports_mergeTimes (m := m) (graph.nodeCount - graph.components.count)
    hlinkage.2.2
  rw [hlinkage.forest_eq]
  refine Reports.within ?_
  refine (reports_ofExcept _ hcheck).bind ((reports_note _ _).bind (hmerges.bind ?_))
  exact (reports_log _).bind (reports_pure _)

end

end Attempt

/-- The forest of a clustering records the merges that the run reports, in the same order, and
nothing else.  A run reports one event for each merge, with its number, the node that it makes,
its two parts in the order of the chosen edge and its height, and one event in the end.  The
nodes that a clustering in place ends with are those of the same forest. -/
theorem Graph.cluster_records_merges {graph : Graph Float} {linkage : Linkage Float}
    (hrun : graph.cluster = .ok linkage) :
    (∀ (m : Type → Type) [Monad m] [LawfulMonad m],
      Attempt.Reports (m := m) (Attempt.clusterGraph graph) linkage.forest
        (linkage.merges.toList.zipIdx.map (fun (merge, step) =>
            { level := .debug
              topic := .linkage
              fields := [("message", .text "merged clusters"), ("step", .count step),
                ("node", .count merge.node), ("left", .count merge.left),
                ("right", .count merge.right), ("height", .real merge.height)] }) ++
          [{ level := .info
             topic := .linkage
             fields := [("message", .text "average-link clustering completed"),
               ("components", .count graph.components.count),
               ("merges", .count (graph.nodeCount - graph.components.count)),
               ("total_nodes", .count linkage.forest.size)] }])) ∧
    linkage.merges.size = graph.nodeCount - graph.components.count ∧
    (∀ index merge, linkage.merges[index]? = some merge →
      merge.node = graph.nodeCount + index ∧ merge.left ≠ merge.right ∧
      (∃ state, Clusters.mergeTimes index (.ofGraph graph) = .ok state ∧
        merge.left ∈ state.current ∧ merge.right ∈ state.current) ∧
      ∃ node left right, linkage.forest.node? (graph.nodeCount + index) = some node ∧
        linkage.forest.node? merge.left = some left ∧
        linkage.forest.node? merge.right = some right ∧
        node.children = some (min merge.left merge.right, max merge.left merge.right) ∧
        node.population = left.population + right.population ∧
        left.parent = graph.nodeCount + index ∧ right.parent = graph.nodeCount + index) ∧
    (∀ id node, linkage.forest.node? id = some node → node.children ≠ none →
      ∃ index < linkage.merges.size, id = graph.nodeCount + index) ∧
    graph.drafts? Arena.unmerged =
      some (linkage.forest.nodes.map MergeForest.Draft.ofNode) := by
  obtain ⟨hgraph, hlinkage⟩ := Graph.proper_of_cluster hrun
  have hrec := (hlinkage.invariant hgraph).recorded
  have hwords := Graph.nodeCount_le_wordLimit (Graph.exists_cluster_iff.mp ⟨linkage, hrun⟩).1
  refine ⟨fun m _ _ => Attempt.reports_clusterGraph hrun, hlinkage.size_merges, ?_, ?_,
    hlinkage.drafts?_eq mergeHeight_unmerged hgraph hwords⟩
  · intro index merge hmerge
    have hmem := Array.mem_of_getElem? hmerge
    obtain ⟨state, edge, hstate, _, _, hsource, htarget, rfl⟩ :=
      hlinkage.exists_state hgraph hmerge
    exact ⟨rfl, hrec.parts_ne _ hmem, ⟨state, hstate, hsource, htarget⟩,
      hlinkage.exists_nodes hgraph hmem⟩
  · intro id node hid hchildren
    obtain ⟨merge, hmerge, rfl⟩ := hlinkage.exists_merge_of_children hgraph hid hchildren
    obtain ⟨index, hindex⟩ := Array.mem_iff_getElem?.mp hmerge
    exact ⟨index, (Array.getElem?_eq_some_iff.mp hindex).1, hrec.node_eq index merge hindex⟩

/-- Both merges report the higher number first, and the nodes have the lower one first. -/
theorem Graph.cluster_records_merges_backward :
    ∃ linkage, Graph.backward.cluster = .ok linkage ∧
      linkage.merges = #[{ node := 4, left := 3, right := 1, height := 2 },
        { node := 5, left := 4, right := 0, height := 0.5 }] ∧
      (∃ journal, (Attempt.clusterGraph Graph.backward : Attempt Id _).run.run .empty =
          (.ok linkage.forest, journal) ∧
        journal.events =
          [{ level := .debug
             topic := .linkage
             fields := [("message", .text "merged clusters"), ("step", .count 0),
               ("node", .count 4), ("left", .count 3), ("right", .count 1),
               ("height", .real 2)] },
            { level := .debug
              topic := .linkage
              fields := [("message", .text "merged clusters"), ("step", .count 1),
                ("node", .count 5), ("left", .count 4), ("right", .count 0),
                ("height", .real 0.5)] },
            { level := .info
              topic := .linkage
              fields := [("message", .text "average-link clustering completed"),
                ("components", .count 2), ("merges", .count 2), ("total_nodes", .count 6)] }]) ∧
      (∃ node left right, linkage.forest.node? 5 = some node ∧
        linkage.forest.node? 4 = some left ∧ linkage.forest.node? 0 = some right ∧
        node.children = some (0, 4) ∧ node.population = left.population + right.population ∧
        left.parent = 5 ∧ right.parent = 5) ∧
      Graph.backward.drafts? Arena.unmerged =
        some (linkage.forest.nodes.map MergeForest.Draft.ofNode) := by
  have hmerges : Graph.backward.cluster.toOption.map
      (fun linkage => (linkage.merges, linkage.forest.size)) =
      some (#[{ node := 4, left := 3, right := 1, height := 2 },
        { node := 5, left := 4, right := 0, height := 0.5 }], 6) := by
    decide +kernel
  obtain ⟨linkage, hrun, hlist⟩ := exists_ok_of_toOption hmerges
  obtain ⟨hlist, hsize⟩ := Prod.mk.inj hlist
  have hmerge : linkage.merges[1]? =
      some { node := 5, left := 4, right := 0, height := 0.5 } := by
    rw [hlist]
    rfl
  have hcount : Graph.backward.components.count = 2 := by decide +kernel
  obtain ⟨hreports, _, hnodes, _, hdrafts⟩ := Graph.cluster_records_merges hrun
  obtain ⟨journal, hjournal, hevents⟩ := hreports Id .empty
  refine ⟨linkage, hrun, hlist, ⟨journal, hjournal, ?_⟩, (hnodes 1 _ hmerge).2.2.2, hdrafts⟩
  rw [hevents, hlist, hsize, hcount]
  rfl

end AverageLinkage
