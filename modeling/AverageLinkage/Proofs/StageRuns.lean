import Mathlib
import AverageLinkage.Proofs.GraphGrammar
import AverageLinkage.Stages

/-!
# Runs of the stages in a directory

What the work of a stage does to a directory and which result it gives, whatever its
journal holds.  One lemma for each way to put work together takes a run apart.  From them
follows what the runs of a stage are: it settles its output while the directory stays as it
is, and only then writes it.
-/

namespace AverageLinkage

/-! ## Files that were stored -/

namespace Directory

variable {directory next : Directory}

/-- No file stands at a location with an entry of its own. -/
theorem fixed?_ne_file (directory : Directory) (location : Location) (content : Text.Bytes) :
    directory.fixed? location ≠ some (.file content) := by
  unfold fixed?
  split
  · simp
  · split <;> simp

/-- A location that holds a file or nothing can be written to. -/
theorem fixed?_of_get? {location : Location}
    (hfree : directory.get? location = none ∨
      ∃ content, directory.get? location = some (.file content)) :
    directory.fixed? location = none := by
  cases hfixed : directory.fixed? location with
  | none => rfl
  | some entry =>
      have hget : directory.get? location = directory.fixed? location := by rw [get?, hfixed]
      rw [hget] at hfree
      rcases hfree with hnone | ⟨content, hfile⟩
      · rw [hfixed] at hnone
        cases hnone
      · exact absurd hfile (fixed?_ne_file directory location content)

/-- A part is a step within the tree of folders, or it names what stands at a location. -/
theorem follow_cases {here there : Location} {entry : Option Entry} {part : String}
    (hfollow : directory.follow here part = .ok (there, entry)) :
    (entry = some .folder ∧
        ∀ other : Directory, other.follow here part = .ok (there, some .folder)) ∨
      (part ≠ "." ∧ part ≠ ".." ∧ entry = directory.get? there ∧
        ∀ other : Directory, other.follow here part = .ok (there, other.get? there)) := by
  unfold follow at hfollow ⊢
  split_ifs at hfollow ⊢ with hself habove hlong
  · cases hfollow
    exact .inl ⟨rfl, fun _ => rfl⟩
  · cases hfollow
    exact .inl ⟨rfl, fun _ => rfl⟩
  · cases hfollow
    exact .inr ⟨hself, habove, rfl, fun _ => rfl⟩

theorem enter_eq_ok_iff {here there : Location} {part : String} :
    directory.enter here part = .ok there ↔
      directory.follow here part = .ok (there, some .folder) := by
  unfold enter
  rw [bind_eq_ok_iff]
  constructor
  · rintro ⟨⟨location, entry⟩, hfollow, henter⟩
    split at henter
    case h_1 heq =>
      cases heq
      cases henter
      exact hfollow
    all_goals cases henter
  · intro hfollow
    exact ⟨_, hfollow, rfl⟩

/-- A folder is reached by the same parts as long as the folders on the way are kept. -/
theorem holder_of_folders (hhome : next.home = directory.home)
    (hfolders : ∀ location, directory.get? location = some .folder →
      next.get? location = some .folder)
    {path : Path} {folder : Location} (hholder : directory.holder path = .ok folder) :
    next.holder path = .ok folder := by
  have horigin : next.origin path = directory.origin path := by rw [origin, origin, hhome]
  unfold holder at hholder ⊢
  rw [horigin]
  generalize directory.origin path = here, path.folders = parts at hholder ⊢
  induction parts generalizing here with
  | nil => exact hholder
  | cons part parts ih =>
      rw [List.foldlM_cons, bind_eq_ok_iff] at hholder ⊢
      obtain ⟨there, henter, hrest⟩ := hholder
      refine ⟨there, ?_, ih there hrest⟩
      rw [enter_eq_ok_iff] at henter ⊢
      obtain ⟨-, hother⟩ | ⟨-, -, hentry, hother⟩ := follow_cases henter
      · exact hother next
      · rw [hother next, hfolders there hentry.symm]

/-- A path leads to a location: the folders on the way are there, and the last name is that of
the location. -/
def LeadsTo (directory : Directory) (path : String) (location : Location) : Prop :=
  ∃ parts folder, Path.read path = .ok parts ∧ parts.slash = false ∧
    directory.holder parts = .ok folder ∧
    ∀ other : Directory, other.follow folder parts.last = .ok (location, other.get? location)

section

variable {path : String} {location : Location}

theorem LeadsTo.unique {other : Location} (hleads : directory.LeadsTo path location)
    (hother : directory.LeadsTo path other) : other = location := by
  obtain ⟨parts, folder, hread, -, hholder, hfollow⟩ := hleads
  obtain ⟨_, _, hread', -, hholder', hfollow'⟩ := hother
  obtain rfl := Except.ok.inj (hread.symm.trans hread')
  obtain rfl := Except.ok.inj (hholder.symm.trans hholder')
  exact (Prod.mk.inj (Except.ok.inj ((hfollow' directory).symm.trans (hfollow directory)))).1

/-- What is found at a path is what stands at its location. -/
theorem LeadsTo.find_eq (hleads : directory.LeadsTo path location) {entry : Entry}
    (hentry : directory.get? location = some entry) :
    directory.find path = .ok (location, entry) := by
  obtain ⟨parts, folder, hread, hslash, hholder, hfollow⟩ := hleads
  cases entry <;>
    simp [find, hread, hholder, hfollow, hentry, hslash, bind, Except.bind, pure, Except.pure]

/-- A path leads to the same location after something was put there. -/
theorem LeadsTo.put (hleads : directory.LeadsTo path location)
    (hfolder : directory.get? location ≠ some .folder) (entry : Entry) :
    (directory.put location entry).LeadsTo path location := by
  obtain ⟨parts, folder, hread, hslash, hholder, hfollow⟩ := hleads
  refine ⟨parts, folder, hread, hslash, holder_of_folders (home_put ..) ?_ hholder, hfollow⟩
  intro other hget
  have hne : other ≠ location := fun heq => hfolder (heq ▸ hget)
  rw [get?_put_of_ne _ _ hne, hget]

/-- A store leaves the directory as it is at a device and puts a file elsewhere. -/
theorem store_cases {content : Text.Bytes} (hstore : directory.store path content = .ok next) :
    ∃ location, directory.LeadsTo path location ∧
      ((∃ device, directory.get? location = some (.device device) ∧ next = directory) ∨
        (directory.fixed? location = none ∧ directory.get? location ≠ some .folder ∧
          next = directory.put location (.file content))) := by
  unfold store at hstore
  obtain ⟨parts, hread, hstore⟩ := bind_eq_ok_iff.mp hstore
  obtain ⟨folder, hholder, hstore⟩ := bind_eq_ok_iff.mp hstore
  -- the check of the slash stands before the last part is followed
  dsimp only at hstore
  by_cases hslash : (parts.slash && parts.named) = true
  · rw [if_pos hslash] at hstore
    cases hstore
  · rw [if_neg hslash] at hstore
    obtain ⟨⟨location, entry⟩, hfollow, hstore⟩ := bind_eq_ok_iff.mp hstore
    obtain ⟨rfl, -⟩ | ⟨hself, habove, rfl, hother⟩ := follow_cases hfollow
    · cases hstore
    · have hslash : parts.slash = false := by simpa [Path.named, hself, habove] using hslash
      refine ⟨location, ⟨parts, folder, hread, hslash, hholder, hother⟩, ?_⟩
      cases hget : directory.get? location with
      | none =>
          rw [hget] at hstore
          cases hstore
          exact .inr ⟨fixed?_of_get? (.inl hget), by simp, rfl⟩
      | some entry =>
          rw [hget] at hstore
          cases entry with
          | folder => cases hstore
          | file held =>
              cases hstore
              exact .inr ⟨fixed?_of_get? (.inr ⟨held, hget⟩), by simp, rfl⟩
          | device device =>
              refine .inl ⟨device, rfl, ?_⟩
              cases device with
              | null =>
                  cases hstore
                  rfl
              | full =>
                  simp only at hstore
                  split at hstore
                  · cases hstore
                    rfl
                  · cases hstore

/-- Of all locations only the one that a path leads to has changed, and a file with the given
content stands there.  A device keeps nothing of what is written to it. -/
def Stores (before : Directory) (path : String) (content : Text.Bytes) (after : Directory) : Prop :=
  ∃ location, (∀ other, other ≠ location → after.get? other = before.get? other) ∧
    (after.find path = .ok (location, .file content) ∨
      after = before ∧ ∃ device, before.find path = .ok (location, .device device))

theorem LeadsTo.stores_put (hleads : directory.LeadsTo path location)
    (hfree : directory.fixed? location = none) (hfolder : directory.get? location ≠ some .folder)
    (content : Text.Bytes) :
    directory.Stores path content (directory.put location (.file content)) :=
  ⟨location, fun _ hne => get?_put_of_ne directory (.file content) hne,
    .inl ((hleads.put hfolder _).find_eq (get?_put_self directory (.file content) hfree))⟩

/-- What was stored is found at its path, unless the path leads to a device. -/
theorem stores_of_store {content : Text.Bytes} (hstore : directory.store path content = .ok next) :
    directory.Stores path content next := by
  obtain ⟨location, hleads, ⟨device, hdevice, rfl⟩ | ⟨hfree, hfolder, rfl⟩⟩ := store_cases hstore
  · exact ⟨location, fun _ _ => rfl, .inr ⟨rfl, device, hleads.find_eq hdevice⟩⟩
  · exact hleads.stores_put hfree hfolder content

end

end Directory

namespace Attempt

variable {Value Result : Type}

/-- Work turns one directory into another and gives a result. -/
def Runs (work : Attempt (StateM Directory) Value) (before : Directory)
    (result : Except Failure Value) (after : Directory) : Prop :=
  ∃ journal journal', (work.run.run journal).run before = ((result, journal'), after)

theorem exists_runs (work : Attempt (StateM Directory) Value) (before : Directory) :
    ∃ result after, Runs work before result after :=
  ⟨_, _, Journal.empty, _, rfl⟩

theorem Runs.bind {first : Attempt (StateM Directory) Value}
    {next : Value → Attempt (StateM Directory) Result} {before after : Directory}
    {result : Except Failure Result} (hruns : Runs (first >>= next) before result after) :
    (∃ value middle, Runs first before (.ok value) middle ∧
        Runs (next value) middle result after) ∨
      ∃ failure, Runs first before (.error failure) after ∧ result = .error failure := by
  obtain ⟨journal, journal', hrun⟩ := hruns
  have hstep : ((first >>= next).run.run journal).run before =
      (match (first.run.run journal).run before with
        | ((outcome, between), middle) =>
            ((ExceptT.bindCont next outcome).run between).run middle) := rfl
  rw [hstep] at hrun
  cases hfirst : (first.run.run journal).run before with
  | mk pair middle =>
      obtain ⟨outcome, between⟩ := pair
      rw [hfirst] at hrun
      cases outcome with
      | ok value => exact .inl ⟨value, middle, ⟨journal, between, hfirst⟩, between, journal', hrun⟩
      | error failure =>
          cases hrun
          exact .inr ⟨failure, ⟨journal, _, hfirst⟩, rfl⟩

theorem Runs.within {span : Span} {body : Attempt (StateM Directory) Value}
    {before after : Directory} {result : Except Failure Value}
    (hruns : Runs (Attempt.within span body) before result after) :
    Runs body before result after := by
  obtain ⟨journal, journal', hrun⟩ := hruns
  cases hbody : (body.run.run (journal.enter span)).run before with
  | mk pair middle =>
      obtain ⟨outcome, between⟩ := pair
      -- the outcome decides what the journal says at the end, and nothing else
      have hstep : ∃ last, ((Attempt.within span body).run.run journal).run before =
          ((outcome, last), middle) := by
        simp only [Attempt.within, bind_pure_comp, ExceptT.run_mk, StateT.run_bind,
          StateT.run_modify, pure_bind, hbody]
        cases outcome with
        | ok value => exact ⟨_, rfl⟩
        | error failure => exact ⟨_, rfl⟩
      obtain ⟨last, hlast⟩ := hstep
      rw [hlast] at hrun
      cases hrun
      exact ⟨journal.enter span, between, hbody⟩

theorem Runs.access {path : String} {operation : StateM Directory (Except SystemFault Value)}
    {before after : Directory} {result : Except Failure Value}
    (hruns : Runs (Attempt.access path operation) before result after) :
    ∃ outcome, operation.run before = (outcome, after) ∧
      result = outcome.mapError (Failure.file path) := by
  obtain ⟨journal, journal', hrun⟩ := hruns
  cases hrun
  exact ⟨_, rfl, rfl⟩

/-! ## Work that touches no file -/

/-- Work leaves the directory as it is and always gives the same result. -/
def Settles (work : Attempt (StateM Directory) Value) (directory : Directory)
    (outcome : Except Failure Value) : Prop :=
  ∀ result after, Runs work directory result after → result = outcome ∧ after = directory

theorem settles_pure (value : Value) (directory : Directory) :
    Settles (pure value) directory (.ok value) := by
  rintro result after ⟨journal, journal', hrun⟩
  cases hrun
  exact ⟨rfl, rfl⟩

/-- Notes and events go to the journal only. -/
theorem settles_modify (update : Journal → Journal) (directory : Directory) :
    Settles (modify update) directory (.ok ()) := by
  rintro result after ⟨journal, journal', hrun⟩
  cases hrun
  exact ⟨rfl, rfl⟩

theorem settles_ofExcept {Fault : Type} (asFailure : Fault → Failure)
    (outcome : Except Fault Value) (directory : Directory) :
    Settles (ofExcept asFailure outcome) directory (outcome.mapError asFailure) := by
  rintro result after ⟨journal, journal', hrun⟩
  cases outcome with
  | ok value =>
      cases hrun
      exact ⟨rfl, rfl⟩
  | error fault =>
      cases hrun
      exact ⟨rfl, rfl⟩

theorem settles_openInput (path : String) (directory : Directory) :
    Settles (openInput path) directory
      ((directory.openInput path).mapError (Failure.file path)) := by
  intro result after hruns
  obtain ⟨outcome, hrun, rfl⟩ := Runs.access hruns
  cases hrun
  exact ⟨rfl, rfl⟩

theorem Settles.within {span : Span} {body : Attempt (StateM Directory) Value}
    {directory : Directory} {outcome : Except Failure Value}
    (hbody : Settles body directory outcome) :
    Settles (Attempt.within span body) directory outcome :=
  fun result after hruns => hbody result after hruns.within

/-- What follows work that settles runs on its value, or not at all. -/
theorem Settles.bind_runs {first : Attempt (StateM Directory) Value}
    {next : Value → Attempt (StateM Directory) Result} {before after : Directory}
    {outcome : Except Failure Value} {result : Except Failure Result}
    (hfirst : Settles first before outcome) (hruns : Runs (first >>= next) before result after) :
    (∃ value, outcome = .ok value ∧ Runs (next value) before result after) ∨
      ∃ failure, outcome = .error failure ∧ result = .error failure ∧ after = before := by
  obtain ⟨value, middle, hvalue, hnext⟩ | ⟨failure, hfailure, rfl⟩ := hruns.bind
  · obtain ⟨rfl, rfl⟩ := hfirst _ _ hvalue
    exact .inl ⟨value, rfl, hnext⟩
  · obtain ⟨rfl, rfl⟩ := hfirst _ _ hfailure
    exact .inr ⟨failure, rfl, rfl, rfl⟩

theorem Settles.bind {first : Attempt (StateM Directory) Value}
    {next : Value → Attempt (StateM Directory) Result} {directory : Directory}
    {outcome : Except Failure Value} {then_ : Value → Except Failure Result}
    (hfirst : Settles first directory outcome)
    (hnext : ∀ value, Settles (next value) directory (then_ value)) :
    Settles (first >>= next) directory (outcome >>= then_) := by
  intro result after hruns
  obtain ⟨value, rfl, hrest⟩ | ⟨failure, rfl, rfl, rfl⟩ := hfirst.bind_runs hruns
  · exact hnext value result after hrest
  · exact ⟨rfl, rfl⟩

/-- What goes to the journal first changes no result. -/
theorem Settles.noted {update : Journal → Journal} {next : Attempt (StateM Directory) Value}
    {directory : Directory} {outcome : Except Failure Value}
    (hnext : Settles next directory outcome) :
    Settles (modify update >>= fun _ => next) directory outcome :=
  (settles_modify update directory).bind fun _ => hnext

theorem Runs.noted {update : Journal → Journal} {next : Attempt (StateM Directory) Value}
    {before after : Directory} {result : Except Failure Value}
    (hruns : Runs (modify update >>= fun _ => next) before result after) :
    Runs next before result after := by
  obtain ⟨_, -, hnext⟩ | ⟨failure, hfailure, -⟩ :=
    (settles_modify update before).bind_runs hruns
  · exact hnext
  · cases hfailure

theorem settles_affinityGraph [Exponential] (kernel : Kernel) (table : DistanceTable)
    (directory : Directory) :
    Settles (affinityGraph kernel table) directory (.ok (kernel.graph table)) :=
  (settles_pure _ directory).noted.noted.within

/-- Merges that are logged one by one are the merges of the clustering. -/
theorem settles_mergeTimes (expected count : Nat) (clusters : Clusters Float)
    (directory : Directory) :
    Settles (mergeTimes expected count clusters) directory
      ((Clusters.mergeTimes count clusters).mapError
        fun merge => .linkage (.edgesExhausted merge expected)) := by
  induction count generalizing clusters with
  | zero => exact settles_pure clusters directory
  | succ count ih =>
      rw [mergeTimes, Clusters.mergeTimes]
      cases clusters.step? with
      | none => exact settles_ofExcept Failure.linkage (.error (.edgesExhausted _ _)) directory
      | some next =>
          simp only
          cases next.merges.back? with
          | none => exact ih next
          | some merge => exact (ih next).noted

theorem settles_clusterGraph (graph : Graph Float) (directory : Directory) :
    Settles (clusterGraph graph) directory
      ((graph.cluster.map Linkage.forest).mapError Failure.linkage) := by
  have houtcome : (graph.cluster.map Linkage.forest).mapError Failure.linkage =
      ((Linkage.check graph).mapError Failure.linkage >>= fun _ =>
        (Clusters.mergeTimes (graph.nodeCount - graph.components.count)
            (.ofGraph graph)).mapError (fun merge =>
              .linkage (.edgesExhausted merge (graph.nodeCount - graph.components.count))) >>=
          fun clusters => Except.ok
            (MergeForest.ofClusters graph.nodeCount graph.components.count clusters)) := by
    unfold Graph.cluster Linkage.mergeAll
    cases Linkage.check graph with
    | error fault => rfl
    | ok _ =>
        cases hmerge : Clusters.mergeTimes (graph.nodeCount - graph.components.count)
          (.ofGraph graph) with
        | error merge =>
            simp only [hmerge]
            rfl
        | ok clusters =>
            simp only [hmerge]
            rfl
  rw [houtcome]
  refine Settles.within ((settles_ofExcept _ _ directory).bind fun _ => Settles.noted ?_)
  exact (settles_mergeTimes _ _ _ directory).bind fun clusters =>
    (settles_pure (MergeForest.ofClusters _ _ clusters) directory).noted

/-! ## The stages -/

/-- A change to the directory is made or leaves no trace. -/
theorem run_attempt {operation : Directory → Except SystemFault Directory}
    {before after : Directory} {outcome : Except SystemFault Unit}
    (hrun : (Directory.attempt operation).run before = (outcome, after)) :
    (operation before = .ok after ∧ outcome = .ok ()) ∨
      ∃ cause, operation before = .error cause ∧ outcome = .error cause ∧ after = before := by
  simp only [Directory.attempt, StateT.run_bind, StateT.run_get, pure_bind] at hrun
  cases hoperation : operation before with
  | ok next =>
      rw [hoperation] at hrun
      cases hrun
      exact .inl ⟨rfl, rfl⟩
  | error cause =>
      rw [hoperation] at hrun
      cases hrun
      exact .inr ⟨cause, rfl, rfl, rfl⟩

/-- An output is created and, if that succeeds, filled. -/
theorem Runs.writeOutput_steps [files : FileAccess (StateM Directory)] {path text : String}
    {before after : Directory} {result : Except Failure Unit}
    (hruns : Runs (writeOutput path text) before result after) :
    (∃ cause, (files.create path).run before = (.error cause, after) ∧
        result = .error (.file path cause)) ∨
      ∃ created, (files.create path).run before = (.ok (), created) ∧
        ∃ outcome, (files.write path text).run created = (outcome, after) ∧
          result = outcome.mapError (Failure.file path) := by
  obtain ⟨_, created, hcreate, hwrite⟩ | ⟨failure, hcreate, rfl⟩ := hruns.bind
  · obtain ⟨outcome, hrun, houtcome⟩ := hcreate.access
    cases outcome with
    | ok _ => exact .inr ⟨created, hrun, hwrite.access⟩
    | error cause => cases houtcome
  · obtain ⟨outcome, hrun, houtcome⟩ := hcreate.access
    cases outcome with
    | ok _ => cases houtcome
    | error cause =>
        cases houtcome
        exact .inl ⟨cause, hrun, rfl⟩

/-- What fails while an output is created or filled leaves the directory as it was then. -/
theorem Runs.writeOutput_cases {path text : String} {before after : Directory}
    {result : Except Failure Unit} (hruns : Runs (writeOutput path text) before result after) :
    (∃ cause, before.store path [] = .error cause ∧ result = .error (.file path cause) ∧
        after = before) ∨
      ∃ created, before.store path [] = .ok created ∧
        ((created.store path (Text.encode text) = .ok after ∧ result = .ok ()) ∨
          ∃ cause, created.store path (Text.encode text) = .error cause ∧
            result = .error (.file path cause) ∧ after = created) := by
  obtain ⟨cause, hcreate, rfl⟩ | ⟨created, hcreate, outcome, hwrite, rfl⟩ :=
    hruns.writeOutput_steps
  · obtain ⟨-, houtcome⟩ | ⟨_, hfault, houtcome, rfl⟩ := run_attempt hcreate
    · cases houtcome
    · cases houtcome
      exact .inl ⟨cause, hfault, rfl, rfl⟩
  · obtain ⟨hcreated, -⟩ | ⟨_, -, houtcome, -⟩ := run_attempt hcreate
    · refine .inr ⟨created, hcreated, ?_⟩
      obtain ⟨hstored, rfl⟩ | ⟨cause, hfault, rfl, rfl⟩ := run_attempt hwrite
      · exact .inl ⟨hstored, rfl⟩
      · exact .inr ⟨cause, hfault, rfl, rfl⟩
    · cases houtcome

/-- The graph that the first stage writes if opening its input gives `opened`. -/
def affinityOutput [Exponential] (tablePath : String) (kernel : Kernel)
    (opened : Except SystemFault Input) : Except Failure (Graph Float) := do
  let input ← opened.mapError (.file tablePath)
  let table ← (DistanceTable.read input).mapError .table
  return kernel.graph table

/-- The forest that the second stage writes if opening its input gives `opened`. -/
def clusterOutput (graphPath : String) (opened : Except SystemFault Input) :
    Except Failure (MergeForest Float) := do
  let input ← opened.mapError (.file graphPath)
  let graph ← (Graph.read input).mapError .graph
  (graph.cluster.map Linkage.forest).mapError .linkage

theorem mapError_eq_ok_iff {Fault Other : Type} {asOther : Fault → Other}
    {outcome : Except Fault Value} {value : Value} :
    outcome.mapError asOther = .ok value ↔ outcome = .ok value := by
  cases outcome <;> simp [Except.mapError]

theorem map_eq_ok_iff {Fault : Type} {outcome : Except Fault Value} {view : Value → Result}
    {result : Result} :
    outcome.map view = .ok result ↔ ∃ value, outcome = .ok value ∧ view value = result := by
  cases outcome <;> simp [Except.map]

theorem affinityOutput_eq_ok_iff [Exponential] {tablePath : String} {kernel : Kernel}
    {opened : Except SystemFault Input} {graph : Graph Float} :
    affinityOutput tablePath kernel opened = .ok graph ↔ ∃ input table, opened = .ok input ∧
      DistanceTable.read input = .ok table ∧ graph = kernel.graph table := by
  simp only [affinityOutput, bind_eq_ok_iff, mapError_eq_ok_iff, pure, Except.pure,
    Except.ok.injEq]
  grind

theorem clusterOutput_eq_ok_iff {graphPath : String} {opened : Except SystemFault Input}
    {forest : MergeForest Float} :
    clusterOutput graphPath opened = .ok forest ↔ ∃ input graph linkage, opened = .ok input ∧
      Graph.read input = .ok graph ∧ graph.cluster = .ok linkage ∧ forest = linkage.forest := by
  simp only [clusterOutput, bind_eq_ok_iff, mapError_eq_ok_iff, map_eq_ok_iff]
  grind

section

variable [FileAccess (StateM Directory)] {Output : Type} {target : String}
  {text : Output → String} {totals : Output → Result} {before after : Directory}
  {result : Except Failure Result}

/-- A stage with a settled output either fails with it, and the directory stays as it is, or
writes its text and ends as the writing does. -/
def Writes (target : String) (text : Output → String) (totals : Output → Result)
    (settled : Except Failure Output) (before : Directory) (result : Except Failure Result)
    (after : Directory) : Prop :=
  match settled with
  | .error failure => result = .error failure ∧ after = before
  | .ok output =>
      ∃ written, Runs (writeOutput target (text output)) before written after ∧
        result = written.map fun _ => totals output

theorem Settles.writes {first : Attempt (StateM Directory) Value}
    {next : Value → Attempt (StateM Directory) Result} {outcome : Except Failure Value}
    {rest : Value → Except Failure Output} (hfirst : Settles first before outcome)
    (hnext : ∀ value, Runs (next value) before result after →
      Writes target text totals (rest value) before result after)
    (hruns : Runs (first >>= next) before result after) :
    Writes target text totals (outcome >>= rest) before result after := by
  obtain ⟨value, rfl, hrest⟩ | ⟨failure, rfl, rfl, rfl⟩ := hfirst.bind_runs hruns
  · exact hnext value hrest
  · exact ⟨rfl, rfl⟩

/-- The last steps of a stage. -/
theorem Runs.writes {output : Output} {event : Event}
    (hruns : Runs (do writeOutput target (text output); log event; return totals output)
      before result after) :
    Writes target text totals (.ok output) before result after := by
  obtain ⟨_, middle, hwrite, hrest⟩ | ⟨failure, hwrite, rfl⟩ := hruns.bind
  · obtain ⟨rfl, rfl⟩ := settles_pure (totals output) middle _ _ hrest.noted
    exact ⟨.ok (), hwrite, rfl⟩
  · exact ⟨.error failure, hwrite, rfl⟩

/-- What the first stage does, whatever files are accessed by, as long as opening the input
leaves the directory as it is. -/
theorem Settles.writes_affinityStage [Exponential] {tablePath graphPath : String} {kernel : Kernel}
    {opened : Except SystemFault Input} {result : Except Failure GraphTotals}
    (hopen : Settles (openInput tablePath) before (opened.mapError (Failure.file tablePath)))
    (hruns : Runs (affinityStage tablePath graphPath kernel) before result after) :
    Writes graphPath Graph.render Graph.totals (affinityOutput tablePath kernel opened)
      before result after := by
  refine hopen.writes (fun input hruns => ?_) hruns.within
  refine (settles_ofExcept _ _ before).writes (fun table hruns => ?_) hruns
  exact (settles_affinityGraph kernel table before).writes
    (fun graph hruns => hruns.noted.noted.writes) hruns

theorem Settles.writes_clusterStage {graphPath forestPath : String} {layout : MergeForest.Layout}
    {opened : Except SystemFault Input} {result : Except Failure ForestTotals}
    (hopen : Settles (openInput graphPath) before (opened.mapError (Failure.file graphPath)))
    (hruns : Runs (clusterStage graphPath forestPath layout) before result after) :
    Writes forestPath (·.render layout) MergeForest.totals (clusterOutput graphPath opened)
      before result after := by
  refine hopen.writes (fun input hruns => ?_) hruns.within
  refine (settles_ofExcept _ _ before).writes (fun graph hruns => ?_) hruns
  rw [← bind_pure ((graph.cluster.map Linkage.forest).mapError Failure.linkage)]
  exact (settles_clusterGraph graph before).writes
    (fun forest hruns => hruns.noted.writes) hruns

end

/-- The first stage writes its graph whole or leaves the directory as it is. -/
theorem writes_affinityStage [Exponential] {tablePath graphPath : String} {kernel : Kernel}
    {before after : Directory} {result : Except Failure GraphTotals}
    (hruns : Runs (affinityStage tablePath graphPath kernel) before result after) :
    Writes graphPath Graph.render Graph.totals
      (affinityOutput tablePath kernel (before.openInput tablePath)) before result after :=
  (settles_openInput tablePath before).writes_affinityStage hruns

/-- The second stage writes its forest whole or leaves the directory as it is. -/
theorem writes_clusterStage {graphPath forestPath : String} {layout : MergeForest.Layout}
    {before after : Directory} {result : Except Failure ForestTotals}
    (hruns : Runs (clusterStage graphPath forestPath layout) before result after) :
    Writes forestPath (·.render layout) MergeForest.totals
      (clusterOutput graphPath (before.openInput graphPath)) before result after :=
  (settles_openInput graphPath before).writes_clusterStage hruns

end Attempt

end AverageLinkage
