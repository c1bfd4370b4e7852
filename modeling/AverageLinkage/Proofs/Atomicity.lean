import Mathlib
import AverageLinkage.Command.Run
import AverageLinkage.Proofs.ForestShape
import AverageLinkage.Proofs.StageComposition

/-!
# What a request leaves behind

A request reads its input to the end and settles the text of its output before it touches
any file.  So whatever goes wrong until then leaves the directory as it is, even where input
and output are the same file.  To say this of every point at which a run can fail, files are
accessed in a directory in which every operation may meet a fault of the system.
-/

namespace AverageLinkage

namespace Directory

/-! ## Files that are written twice -/

theorem put_put (directory : Directory) (location : Location) (first second : Entry) :
    (directory.put location first).put location second = directory.put location second := by
  simp [put, erase]

/-- A file that is created and then filled is stored at once. -/
theorem stores_of_store_store {before created after : Directory} {path : String}
    {first content : Text.Bytes} (hcreate : before.store path first = .ok created)
    (hfill : created.store path content = .ok after) : before.Stores path content after := by
  obtain ⟨location, hleads, ⟨device, -, rfl⟩ | ⟨hfree, hfolder, rfl⟩⟩ := store_cases hcreate
  · exact stores_of_store hfill
  · have hagain := hleads.put hfolder (.file first)
    have hheld := get?_put_self before (.file first) hfree
    obtain ⟨place, hplace, hcases⟩ := store_cases hfill
    obtain rfl := hagain.unique hplace
    obtain ⟨device, hdevice, -⟩ | ⟨-, -, rfl⟩ := hcases
    · rw [hheld] at hdevice
      cases hdevice
    · rw [put_put]
      exact hleads.stores_put hfree hfolder content

/-- The bytes that a path leads to: those of a file, or none at the empty device. -/
def Holds (directory : Directory) (path : String) (content : Text.Bytes) : Prop :=
  ∃ location, directory.find path = .ok (location, .file content) ∨
    content = [] ∧ directory.find path = .ok (location, .device .null)

/-! ## Faults of the system -/

/-- The faults that a run may meet, by the path of the file: when it opens the file, after it
has read some lines, when it creates the file, and after it has written some bytes. -/
structure Faults where
  opening : String → Option SystemFault
  reading : String → Option (Nat × SystemFault)
  creating : String → Option SystemFault
  writing : String → Option (Nat × SystemFault)

namespace Faults

/-- The system does all that is asked of it. -/
def never : Faults :=
  { opening := fun _ => none
    reading := fun _ => none
    creating := fun _ => none
    writing := fun _ => none }

/-- The lines that are read before reading breaks off. -/
def cut (faults : Faults) (path : String) (input : Input) : Input :=
  match faults.reading path with
  | none => input
  | some (count, cause) => input.take count ++ [.error cause]

def opened (faults : Faults) (directory : Directory) (path : String) : Except SystemFault Input :=
  match faults.opening path with
  | none => (directory.openInput path).map (faults.cut path)
  | some cause => .error cause

def created (faults : Faults) (path : String) (directory : Directory) :
    Except SystemFault Directory :=
  match faults.creating path with
  | none => directory.store path []
  | some cause => .error cause

/-- Fill a file.  What was written before a fault stays. -/
def fill (faults : Faults) (path text : String) : StateM Directory (Except SystemFault Unit) :=
  match faults.writing path with
  | none => Directory.attempt (·.store path (Text.encode text))
  | some (length, cause) => do
      let _ ← Directory.attempt (·.store path ((Text.encode text).take length))
      return .error cause

abbrev access (faults : Faults) : FileAccess (StateM Directory) where
  openInput path := do return faults.opened (← get) path
  create path := Directory.attempt (faults.created path)
  write := faults.fill

/-- Without faults this is how requests access a directory. -/
theorem access_never : never.access = directoryAccess := by
  have hopened : ∀ (directory : Directory) (path : String),
      never.opened directory path = directory.openInput path := by
    intro directory path
    rw [opened]
    cases directory.openInput path <;> rfl
  rw [access, directoryAccess]
  simp only [hopened]
  rfl

/-- A file is created if it meets no fault and its path can be followed. -/
theorem created_eq_ok_iff {faults : Faults} {path : String} {directory next : Directory} :
    faults.created path directory = .ok next ↔
      faults.creating path = none ∧ directory.store path [] = .ok next := by
  rw [created]
  cases faults.creating path <;> simp

/-- A file is filled, or a part of the bytes is left in it. -/
theorem run_fill {faults : Faults} {path text : String} {created after : Directory}
    {outcome : Except SystemFault Unit}
    (hrun : (faults.fill path text).run created = (outcome, after)) :
    (faults.writing path = none ∧ created.store path (Text.encode text) = .ok after ∧
        outcome = .ok ()) ∨
      ∃ cause, outcome = .error cause ∧
        ((∃ length, faults.writing path = some (length, cause)) ∨
          created.store path (Text.encode text) = .error cause) ∧
        (after = created ∨
          ∃ part, part <+: Text.encode text ∧ created.store path part = .ok after) := by
  rw [fill] at hrun
  cases hfault : faults.writing path with
  | none =>
      rw [hfault] at hrun
      obtain ⟨hstored, rfl⟩ | ⟨cause, hfailed, rfl, rfl⟩ := Attempt.run_attempt hrun
      · exact .inl ⟨rfl, hstored, rfl⟩
      · exact .inr ⟨cause, rfl, .inr hfailed, .inl rfl⟩
  | some fault =>
      obtain ⟨length, cause⟩ := fault
      rw [hfault] at hrun
      obtain ⟨rfl, rfl⟩ := Prod.mk.inj hrun
      refine .inr ⟨cause, rfl, .inl ⟨length, rfl⟩, ?_⟩
      obtain ⟨hstored, -⟩ | ⟨_, -, -, hkept⟩ :=
        @Attempt.run_attempt (·.store path ((Text.encode text).take length)) created _ _ rfl
      · exact .inr ⟨_, List.take_prefix _ _, hstored⟩
      · exact .inl hkept

end Faults

end Directory

/-! ## Inputs that are read to their end -/

def Input.Readable (input : Input) : Prop :=
  ∀ item ∈ input, ∃ line, item = .ok line

theorem not_readable_unreadable (cause : SystemFault) : ¬(Input.unreadable cause).Readable := by
  intro hreadable
  obtain ⟨_, hline⟩ := hreadable _ (List.mem_singleton_self _)
  cases hline

/-- A line that could not be read is a fault, so rows come from readable lines only. -/
theorem DistanceTable.readable_of_readRows {row : Nat} {input : Input} {rows : List (List Float)}
    (hread : DistanceTable.readRows row input = .ok rows) : input.Readable := by
  induction input generalizing row rows with
  | nil => simp [Input.Readable]
  | cons item rest ih =>
      cases item with
      | error cause => cases hread
      | ok line =>
          have hrest : Input.Readable rest := by
            rw [DistanceTable.readRows] at hread
            split at hread
            · exact ih hread
            · obtain ⟨_, -, hread⟩ := bind_eq_ok_iff.mp hread
              obtain ⟨_, hread, -⟩ := bind_eq_ok_iff.mp hread
              exact ih hread
          simpa [Input.Readable] using hrest

theorem DistanceTable.readable_of_read {input : Input} {table : DistanceTable}
    (hread : DistanceTable.read input = .ok table) : input.Readable := by
  obtain ⟨rows, hrows, -⟩ := bind_eq_ok_iff.mp hread
  exact readable_of_readRows hrows

theorem Graph.readable_of_read {input : Input} {graph : Graph Float}
    (hread : Graph.read input = .ok graph) : input.Readable := by
  obtain ⟨words, hwords, -⟩ := readFrom_eq_ok_iff.mp hread
  clear hread
  induction hwords with
  | nil => simp [Input.Readable]
  | cons hitem _ ih =>
      obtain ⟨line, rfl, -⟩ := hitem
      simpa [Input.Readable] using ih

namespace Directory

/-- An input that can be read to its end is the content of what the path leads to. -/
theorem openInput_eq_ok_iff {directory : Directory} {path : String} {input : Input}
    (hreadable : input.Readable) :
    directory.openInput path = .ok input ↔
      ∃ content, directory.Holds path content ∧ input = Input.ofBytes content := by
  rw [openInput, bind_eq_ok_iff]
  constructor
  · rintro ⟨⟨location, entry⟩, hfind, hinput⟩
    cases entry with
    | file content => exact ⟨content, ⟨location, .inl hfind⟩, (Except.ok.inj hinput).symm⟩
    | device device =>
        cases device with
        | null =>
            refine ⟨[], ⟨location, .inr ⟨rfl, hfind⟩⟩, ?_⟩
            rw [Input.ofBytes, Text.lines_nil, List.map_nil]
            exact (Except.ok.inj hinput).symm
        | full => exact absurd hreadable (Except.ok.inj hinput ▸ not_readable_unreadable _)
    | folder => exact absurd hreadable (Except.ok.inj hinput ▸ not_readable_unreadable _)
  · rintro ⟨content, ⟨location, hfile | ⟨rfl, hdevice⟩⟩, rfl⟩
    · exact ⟨_, hfile, rfl⟩
    · exact ⟨_, hdevice, rfl⟩

namespace Faults

variable {faults : Faults} {directory : Directory} {path : String} {input : Input}

theorem reading_of_readable_cut (hreadable : (faults.cut path input).Readable) :
    faults.reading path = none := by
  rw [cut] at hreadable
  cases hfault : faults.reading path with
  | none => rfl
  | some fault =>
      rw [hfault] at hreadable
      obtain ⟨_, hline⟩ := hreadable (.error fault.2) (by simp)
      cases hline

/-- An input that was read to its end is all that the path leads to, and no fault was met. -/
theorem opened_eq_ok_iff (hreadable : input.Readable) :
    faults.opened directory path = .ok input ↔ faults.opening path = none ∧
      faults.reading path = none ∧
        ∃ content, directory.Holds path content ∧ input = Input.ofBytes content := by
  rw [← openInput_eq_ok_iff hreadable, opened]
  cases faults.opening path with
  | some cause => simp
  | none =>
      cases hopen : directory.openInput path with
      | error cause => simp [Except.map]
      | ok whole =>
          simp only [Except.map, Except.ok.injEq, true_and]
          constructor
          · rintro rfl
            have hreading := reading_of_readable_cut hreadable
            exact ⟨hreading, by rw [cut, hreading]⟩
          · rintro ⟨hreading, rfl⟩
            rw [cut, hreading]

end Faults

end Directory

/-! ## Requests -/

namespace Attempt

variable {Value Result Output : Type} {before after : Directory}

theorem Runs.map {work : Attempt (StateM Directory) Value} {view : Value → Result}
    {result : Except Failure Result} (hruns : Runs (view <$> work) before result after) :
    ∃ inner, Runs work before inner after ∧ result = inner.map view := by
  rw [map_eq_pure_bind] at hruns
  obtain ⟨value, middle, hwork, hpure⟩ | ⟨failure, hwork, rfl⟩ := hruns.bind
  · obtain ⟨rfl, rfl⟩ := settles_pure (view value) middle _ _ hpure
    exact ⟨.ok value, hwork, rfl⟩
  · exact ⟨.error failure, hwork, rfl⟩

/-- What goes to the journal in the end changes no result. -/
theorem Runs.reported {work : Attempt (StateM Directory) Value} {update : Journal → Journal}
    {result : Except Failure Value}
    (hruns : Runs (work >>= fun value => modify update >>= fun _ => pure value)
      before result after) :
    Runs work before result after := by
  obtain ⟨value, middle, hwork, hrest⟩ | ⟨failure, hwork, rfl⟩ := hruns.bind
  · obtain ⟨rfl, rfl⟩ := settles_pure value middle _ _ hrest.noted
    exact hwork
  · exact hwork

/-- A view of the result does not change what is written. -/
theorem Writes.map [FileAccess (StateM Directory)] {target : String} {text : Output → String}
    {totals : Output → Value} {settled : Except Failure Output} {result : Except Failure Value}
    (hwrites : Writes target text totals settled before result after) (view : Value → Result) :
    Writes target Prod.fst Prod.snd
      (settled.map fun output => (text output, view (totals output))) before
      (result.map view) after := by
  cases settled with
  | error failure =>
      obtain ⟨rfl, rfl⟩ := hwrites
      exact ⟨rfl, rfl⟩
  | ok output =>
      obtain ⟨written, hwritten, rfl⟩ := hwrites
      refine ⟨written, hwritten, ?_⟩
      cases written <;> rfl

end Attempt

namespace Request

def source : Request → String
  | .affinity table _ _ _ => table
  | .cluster graph _ _ => graph

def target : Request → String
  | .affinity _ graph _ _ => graph
  | .cluster _ forest _ => forest

/-- The text that a request writes and the summary that it returns, if opening a file gives
what `opened` says. -/
def settled [Exponential] (opened : String → Except SystemFault Input) :
    Request → Except Failure (String × Summary)
  | .affinity table _ maxDistance variance? =>
      ((Kernel.ofOptions (.ofSettings maxDistance variance?)).mapError Failure.kernel >>=
        fun kernel => Attempt.affinityOutput table kernel (opened table)).map
          fun graph => (graph.render, .graph graph.totals)
  | .cluster graph _ heights =>
      (Attempt.clusterOutput graph (opened graph)).map
        fun forest => (forest.render (.ofFlag heights), .forest forest.totals)

/-- A request settles its output before it writes it. -/
theorem writes_run [FileAccess (StateM Directory)] [Exponential] {request : Request}
    {opened : String → Except SystemFault Input} {before after : Directory}
    {result : Except Failure Summary}
    (hopen : ∀ path, Attempt.Settles (Attempt.openInput path) before
      ((opened path).mapError (Failure.file path)))
    (hruns : Attempt.Runs request.run before result after) :
    Attempt.Writes request.target Prod.fst Prod.snd (request.settled opened) before result
      after := by
  have hnoted := hruns.within.noted
  cases request with
  | affinity table graph maxDistance variance? =>
      obtain ⟨inner, hinner, rfl⟩ := (Attempt.Runs.reported hnoted).map
      have hstage := (Attempt.settles_ofExcept _ _ before).writes
        (fun kernel hruns => (hopen table).writes_affinityStage hruns.noted) hinner.within
      exact hstage.map Summary.graph
  | cluster graph forest heights =>
      obtain ⟨inner, hinner, rfl⟩ := (Attempt.Runs.reported hnoted).map
      exact ((hopen graph).writes_clusterStage hinner.within).map Summary.forest

/-- The stage of a request turns the content of its input into a text and a summary. -/
def Yields [Exponential] (content : Text.Bytes) (text : String) (summary : Summary) : Request → Prop
  | .affinity _ _ maxDistance variance? => ∃ kernel table,
      Kernel.ofOptions (.ofSettings maxDistance variance?) = .ok kernel ∧
      DistanceTable.read (Input.ofBytes content) = .ok table ∧
      text = (kernel.graph table).render ∧ summary = .graph (kernel.graph table).totals
  | .cluster _ _ heights => ∃ graph linkage,
      Graph.read (Input.ofBytes content) = .ok graph ∧ graph.cluster = .ok linkage ∧
      text = linkage.forest.render (.ofFlag heights) ∧ summary = .forest linkage.forest.totals

open Directory (Faults)

/-- The input of a request is read to its end, and its content yields a text. -/
structure Prepared [Exponential] (request : Request) (faults : Faults) (before : Directory)
    (text : String) (summary : Summary) : Prop where
  opening_eq : faults.opening request.source = none
  reading_eq : faults.reading request.source = none
  yields : ∃ content, before.Holds request.source content ∧ request.Yields content text summary

/-- A request has an output if and only if its input can be read to the end and yields one. -/
theorem settled_eq_ok_iff [Exponential] {request : Request} {faults : Faults} {before : Directory}
    {text : String} {summary : Summary} :
    request.settled (faults.opened before) = .ok (text, summary) ↔
      request.Prepared faults before text summary := by
  cases request with
  | affinity table graph maxDistance variance? =>
      simp only [settled, Attempt.map_eq_ok_iff, bind_eq_ok_iff, Attempt.mapError_eq_ok_iff,
        Attempt.affinityOutput_eq_ok_iff, Prod.mk.injEq]
      constructor
      · rintro ⟨_, ⟨kernel, hkernel, input, items, hopened, hread, rfl⟩, rfl, rfl⟩
        obtain ⟨hopening, hreading, content, hholds, rfl⟩ :=
          (Faults.opened_eq_ok_iff (DistanceTable.readable_of_read hread)).mp hopened
        exact ⟨hopening, hreading, content, hholds, kernel, items, hkernel, hread, rfl, rfl⟩
      · rintro ⟨hopening, hreading, content, hholds, kernel, items, hkernel, hread, rfl, rfl⟩
        have hopened := (Faults.opened_eq_ok_iff (DistanceTable.readable_of_read hread)).mpr
          ⟨hopening, hreading, content, hholds, rfl⟩
        exact ⟨_, ⟨kernel, hkernel, _, items, hopened, hread, rfl⟩, rfl, rfl⟩
  | cluster graph forest heights =>
      simp only [settled, Attempt.map_eq_ok_iff, Attempt.clusterOutput_eq_ok_iff, Prod.mk.injEq]
      constructor
      · rintro ⟨_, ⟨input, items, linkage, hopened, hread, hcluster, rfl⟩, rfl, rfl⟩
        obtain ⟨hopening, hreading, content, hholds, rfl⟩ :=
          (Faults.opened_eq_ok_iff (Graph.readable_of_read hread)).mp hopened
        exact ⟨hopening, hreading, content, hholds, items, linkage, hread, hcluster, rfl, rfl⟩
      · rintro ⟨hopening, hreading, content, hholds, items, linkage, hread, hcluster, rfl, rfl⟩
        have hopened := (Faults.opened_eq_ok_iff (Graph.readable_of_read hread)).mpr
          ⟨hopening, hreading, content, hholds, rfl⟩
        exact ⟨_, ⟨_, items, linkage, hopened, hread, hcluster, rfl⟩, rfl, rfl⟩

theorem settles_openInput_faults (faults : Faults) (path : String) (directory : Directory) :
    Attempt.Settles (@Attempt.openInput _ _ faults.access path) directory
      ((faults.opened directory path).mapError (Failure.file path)) := by
  intro result after hruns
  obtain ⟨outcome, hrun, rfl⟩ := Attempt.Runs.access hruns
  cases hrun
  exact ⟨rfl, rfl⟩

/-- All that a run can do: it fails before it has a text, it fails to create its output, it
fails to fill it, or it ends well. -/
theorem run_cases [Exponential] {faults : Faults} {request : Request} {before after : Directory}
    {result : Except Failure Summary}
    (hruns : Attempt.Runs (@Request.run _ _ faults.access _ request) before result after) :
    (∃ failure, request.settled (faults.opened before) = .error failure ∧
        result = .error failure ∧ after = before) ∨
      ∃ text summary, request.settled (faults.opened before) = .ok (text, summary) ∧
        ((∃ cause, faults.created request.target before = .error cause ∧
            result = .error (.file request.target cause) ∧ after = before) ∨
          ∃ created, faults.created request.target before = .ok created ∧
            ((faults.writing request.target = none ∧
                created.store request.target (Text.encode text) = .ok after ∧
                result = .ok summary) ∨
              ∃ cause part, ((∃ length, faults.writing request.target = some (length, cause)) ∨
                  created.store request.target (Text.encode text) = .error cause) ∧
                result = .error (.file request.target cause) ∧
                part <+: Text.encode text ∧ before.Stores request.target part after)) := by
  have hwrites := @writes_run faults.access _ request _ before after result
    (fun path => settles_openInput_faults faults path before) hruns
  cases hsettled : request.settled (faults.opened before) with
  | error failure =>
      rw [hsettled] at hwrites
      exact .inl ⟨failure, rfl, hwrites.1, hwrites.2⟩
  | ok output =>
      obtain ⟨text, summary⟩ := output
      rw [hsettled] at hwrites
      obtain ⟨written, hwritten, rfl⟩ := hwrites
      refine .inr ⟨text, summary, rfl, ?_⟩
      obtain ⟨cause, hcreate, rfl⟩ | ⟨created, hcreate, outcome, hfill, rfl⟩ :=
        @Attempt.Runs.writeOutput_steps faults.access _ _ _ _ _ hwritten
      · obtain ⟨-, houtcome⟩ | ⟨_, hfault, houtcome, rfl⟩ := Attempt.run_attempt hcreate
        · cases houtcome
        · cases houtcome
          exact .inl ⟨cause, hfault, rfl, rfl⟩
      · obtain ⟨hcreated, -⟩ | ⟨_, -, houtcome, -⟩ := Attempt.run_attempt hcreate
        · refine .inr ⟨created, hcreated, ?_⟩
          have hempty := (Faults.created_eq_ok_iff.mp hcreated).2
          obtain ⟨hwriting, hstored, rfl⟩ | ⟨cause, rfl, hfault, hpart⟩ := Faults.run_fill hfill
          · exact .inl ⟨hwriting, hstored, rfl⟩
          · obtain rfl | ⟨part, hprefix, hstored⟩ := hpart
            · exact .inr ⟨cause, [], hfault, rfl, List.nil_prefix,
                Directory.stores_of_store hempty⟩
            · exact .inr ⟨cause, part, hfault, rfl, hprefix,
                Directory.stores_of_store_store hempty hstored⟩
        · cases houtcome

end Request

/-- The totals of a summary are those that its text begins with. -/
def Summary.Heads (text : String) : Summary → Prop
  | .graph totals => ∃ body, text = s!"{totals.nodes} {totals.edges}\n" ++ body
  | .forest totals => (∃ body, text = s!"{totals.total}\n" ++ body) ∧
      totals.total = totals.nodes + totals.merges ∧
      totals.merges = totals.nodes - totals.components ∧ totals.components ≤ totals.nodes

/-- The totals of a summary are counted from the same value whose text is written. -/
theorem Request.Yields.heads [Exponential] {request : Request} {content : Text.Bytes}
    {text : String} {summary : Summary} (hyields : request.Yields content text summary) :
    summary.Heads text := by
  cases request with
  | affinity table graph maxDistance variance? =>
      obtain ⟨kernel, items, -, -, rfl, rfl⟩ := hyields
      exact ⟨_, rfl⟩
  | cluster source forest heights =>
      obtain ⟨graph, linkage, -, hcluster, rfl, rfl⟩ := hyields
      obtain ⟨hgraph, hlinkage⟩ := Graph.proper_of_cluster hcluster
      have hsize : linkage.forest.size = graph.nodeCount + linkage.merges.size := by
        rw [hlinkage.forest_eq, MergeForest.size_ofClusters]
        rfl
      have hleaves : linkage.forest.leafCount = graph.nodeCount := hlinkage.1
      have hcomponents : linkage.forest.componentCount = graph.components.count := hlinkage.2.1
      have hmerges : linkage.forest.mergeCount = linkage.merges.size := by
        have hcount : linkage.forest.mergeCount =
            linkage.forest.size - linkage.forest.leafCount := rfl
        rw [hcount, hsize, hleaves, Nat.add_sub_cancel_left]
      refine ⟨⟨_, rfl⟩, ?_, ?_, ?_⟩
      · change linkage.forest.size = linkage.forest.leafCount + linkage.forest.mergeCount
        rw [hsize, hleaves, hmerges]
      · change linkage.forest.mergeCount =
          linkage.forest.leafCount - linkage.forest.componentCount
        rw [hmerges, hlinkage.size_merges, hleaves, hcomponents]
      · change linkage.forest.componentCount ≤ linkage.forest.leafCount
        rw [hcomponents, hleaves]
        exact Graph.count_components_le hgraph

open Directory (Faults) in
/-- A request leaves every file as it was if it fails, except that an output which was already
created may hold only a part of its text if filling it fails.  If the request succeeds, its
output holds the text that its stage yields from the content that the input had before, and
nothing else has changed; the summary agrees with the head of the text.  The request succeeds
whenever the input can be read and yields a text and the output can be created and filled.
This holds whatever faults the system meets, and also if the input and the output are one
file. -/
theorem Request.run_atomic [Exponential] (faults : Faults) {request : Request}
    {before after : Directory} {result : Except Failure Summary}
    (hruns : Attempt.Runs (@Request.run _ _ faults.access _ request) before result after) :
    (∀ failure, result = .error failure → after = before ∨
      ∃ text summary created cause part,
        request.Prepared faults before text summary ∧
        faults.creating request.target = none ∧
        before.store request.target [] = .ok created ∧
        ((∃ length, faults.writing request.target = some (length, cause)) ∨
          created.store request.target (Text.encode text) = .error cause) ∧
        failure = .file request.target cause ∧
        part <+: Text.encode text ∧ before.Stores request.target part after) ∧
    (∀ summary, result = .ok summary → ∃ text,
      request.Prepared faults before text summary ∧
      before.Stores request.target (Text.encode text) after ∧ summary.Heads text) ∧
    ∀ text summary created filled, request.Prepared faults before text summary →
      faults.creating request.target = none → before.store request.target [] = .ok created →
      faults.writing request.target = none →
      created.store request.target (Text.encode text) = .ok filled →
      result = .ok summary ∧ after = filled := by
  obtain ⟨failure, hsettled, rfl, rfl⟩ | ⟨text, summary, hsettled, hcases⟩ := run_cases hruns
  · refine ⟨fun _ _ => .inl rfl, nofun, ?_⟩
    intro text summary created filled hprepared
    rw [settled_eq_ok_iff.mpr hprepared] at hsettled
    cases hsettled
  · have hprepared := settled_eq_ok_iff.mp hsettled
    have hunique : ∀ {other total}, request.Prepared faults before other total →
        other = text ∧ total = summary := by
      intro other total hother
      rw [settled_eq_ok_iff.mpr hother] at hsettled
      exact Prod.mk.inj (Except.ok.inj hsettled)
    obtain ⟨cause, hfault, rfl, rfl⟩ | ⟨created, hcreated, hfilled⟩ := hcases
    · refine ⟨fun _ _ => .inl rfl, nofun, ?_⟩
      intro _ _ created filled _ hcreating hstore
      rw [Faults.created_eq_ok_iff.mpr ⟨hcreating, hstore⟩] at hfault
      cases hfault
    · obtain ⟨hcreating, hempty⟩ := Faults.created_eq_ok_iff.mp hcreated
      obtain ⟨hwriting, hstored, rfl⟩ | ⟨cause, part, hfault, rfl, hpart, hstores⟩ := hfilled
      · refine ⟨nofun, ?_, ?_⟩
        · intro total htotal
          obtain rfl := Except.ok.inj htotal
          obtain ⟨content, -, hyields⟩ := hprepared.yields
          exact ⟨text, hprepared, Directory.stores_of_store_store hempty hstored, hyields.heads⟩
        · intro other total middle filled hother _ hmiddle _ hfill
          obtain ⟨rfl, rfl⟩ := hunique hother
          obtain rfl := Except.ok.inj (hempty.symm.trans hmiddle)
          exact ⟨rfl, Except.ok.inj (hstored.symm.trans hfill)⟩
      · refine ⟨?_, nofun, ?_⟩
        · intro failure hfailure
          exact .inr ⟨text, summary, created, cause, part, hprepared, hcreating, hempty, hfault,
            (Except.error.inj hfailure).symm, hpart, hstores⟩
        · intro other total middle filled hother _ hmiddle hwriting hfill
          obtain ⟨rfl, rfl⟩ := hunique hother
          obtain rfl := Except.ok.inj (hempty.symm.trans hmiddle)
          rw [hwriting, hfill] at hfault
          simp at hfault

/-- A table that is to be replaced by its graph. -/
def inPlaceDirectory : Directory :=
  { entries := [(["home", "work", "notes"], .folder),
      (["home", "work", "data"], .file Attempt.nearTable)] }

open Directory (Faults) in
/-- The input and the output are one file. -/
theorem Request.run_atomic_in_place :
    ∃ text summary after,
      Attempt.Runs (Request.affinity "data" "data" 5 none).run inPlaceDirectory (.ok summary)
        after ∧
      Request.Prepared (.affinity "data" "data" 5 none) .never inPlaceDirectory text summary ∧
      inPlaceDirectory.Stores "data" (Text.encode text) after ∧ summary.Heads text := by
  obtain ⟨table, hread, -⟩ : ∃ table,
      DistanceTable.read (Input.ofBytes Attempt.nearTable) = .ok table ∧
        table.rows = [[0, 1, 9], [1, 0, 2], [9, 2, 0]] :=
    exists_ok_of_toOption (by decide +kernel)
  have hkernel : Kernel.ofOptions (.ofSettings 5 none) = .ok ⟨5, 3600⟩ := rfl
  have hprepared : Request.Prepared (.affinity "data" "data" 5 none) .never inPlaceDirectory
      (Kernel.graph ⟨5, 3600⟩ table).render (.graph (Kernel.graph ⟨5, 3600⟩ table).totals) :=
    ⟨rfl, rfl, Attempt.nearTable, ⟨["home", "work", "data"], .inl rfl⟩, _, table, hkernel, hread,
      rfl, rfl⟩
  obtain ⟨result, after, hruns⟩ :=
    Attempt.exists_runs (Request.affinity "data" "data" 5 none).run inPlaceDirectory
  have hruns' := hruns
  rw [← Faults.access_never] at hruns'
  obtain ⟨-, hdone, hends⟩ := Request.run_atomic .never hruns'
  obtain ⟨rfl, rfl⟩ := hends _ _ _ _ hprepared rfl rfl rfl rfl
  obtain ⟨text, htext, hstores, hheads⟩ := hdone _ rfl
  exact ⟨text, _, _, hruns, htext, hstores, hheads⟩

end AverageLinkage
