import Mathlib
import AverageLinkage.Components
import AverageLinkage.Proofs.Components

/-!
# Access within bounds

The components of a graph are found with checked access to the arrays exactly if
every edge joins nodes of the graph, and then they are those found without checks.
An element outside of the range fails at its first link.  Inside of the range no
access fails: links stay in range, a chain has fewer links than there are elements,
and a root is an element like any other.
-/

namespace AverageLinkage

namespace DisjointSets

/-! ## Chains of links -/

theorem getElem?_parent {parent : Array Nat} {element : Nat} (helement : element < parent.size) :
    parent[element]? = some (parentOf parent element) := by
  simp [parentOf, helement]

theorem climb?_succ {parent : Array Nat} {element : Nat} (helement : element < parent.size)
    (steps : Nat) :
    climb? parent (steps + 1) element =
      if parentOf parent element = element then some element
      else climb? parent steps (parentOf parent element) := by
  rw [climb?, getElem?_parent helement]
  rfl

/-- A climb that starts outside of the array fails at its first access. -/
theorem climb?_of_size_le {parent : Array Nat} {element : Nat} (helement : parent.size ≤ element)
    (steps : Nat) : climb? parent steps element = none := by
  cases steps with
  | zero => rfl
  | succ steps => simp [climb?, helement]

/-- Reading one link more than the chain has is enough. -/
theorem climb?_eq_iterate {parent : Array Nat}
    (hparent : ∀ other < parent.size, parentOf parent other < parent.size) {element links : Nat}
    (helement : element < parent.size)
    (hfixed : parentOf parent ((parentOf parent)^[links] element) =
      (parentOf parent)^[links] element) {steps : Nat} (hsteps : links < steps) :
    climb? parent steps element = some ((parentOf parent)^[links] element) := by
  induction steps generalizing element links with
  | zero => omega
  | succ steps ih =>
      rw [climb?_succ helement]
      split
      · next hroot => rw [Function.iterate_fixed hroot]
      · next hlink =>
          cases links with
          | zero => exact absurd hfixed hlink
          | succ links => exact ih (hparent element helement) hfixed (by omega)

/-- Fewer links than there are elements lead from an element to its root. -/
theorem Sound.exists_lt_iterate {sets : DisjointSets} (hsound : sets.Sound) {element : Nat}
    (helement : element < sets.parent.size) :
    ∃ links < sets.parent.size, (parentOf sets.parent)^[links] element = sets.root element := by
  obtain ⟨steps, hsteps⟩ := (hsound.climbs_root element).exists_iterate
  have hends : parentOf sets.parent ((parentOf sets.parent)^[steps] element) =
      (parentOf sets.parent)^[steps] element := by
    rw [hsteps]
    exact hsound.parentOf_root element
  obtain ⟨links, hlinks, hfixed⟩ := exists_lt_fixed hsound.parent_lt helement ⟨steps, hends⟩
  have hsplit : sets.parent.size = sets.parent.size - links + links := by omega
  refine ⟨links, hlinks, ?_⟩
  rw [root, climb_eq_iterate, hsplit, Function.iterate_add_apply, Function.iterate_fixed hfixed]

/-- A climb needs one access more than the links it follows. -/
theorem Sound.climb?_of_iterate {sets : DisjointSets} (hsound : sets.Sound) {element links : Nat}
    (helement : element < sets.parent.size)
    (hlinks : (parentOf sets.parent)^[links] element = sets.root element) {steps : Nat}
    (hsteps : links < steps) : climb? sets.parent steps element = some (sets.root element) := by
  have hfixed : parentOf sets.parent ((parentOf sets.parent)^[links] element) =
      (parentOf sets.parent)^[links] element := by
    rw [hlinks]
    exact hsound.parentOf_root element
  rw [climb?_eq_iterate hsound.parent_lt helement hfixed hsteps, hlinks]

/-- In sound sets as many accesses as elements are enough for every climb. -/
theorem Sound.climb?_eq_root {sets : DisjointSets} (hsound : sets.Sound) {element : Nat}
    (helement : element < sets.parent.size) :
    climb? sets.parent sets.parent.size element = some (sets.root element) := by
  obtain ⟨links, hlt, hlinks⟩ := hsound.exists_lt_iterate helement
  exact hsound.climb?_of_iterate helement hlinks hlt

/-! ## Finding -/

theorem lt_size_of_climb? {parent : Array Nat} {steps element root : Nat}
    (hclimb : climb? parent steps element = some root) : element < parent.size := by
  by_contra hout
  rw [climb?_of_size_le (Nat.le_of_not_lt hout)] at hclimb
  contradiction

/-- A climb that succeeds ends at a root. -/
theorem climb?_ends {parent : Array Nat} {steps element root : Nat}
    (hclimb : climb? parent steps element = some root) :
    root < parent.size ∧ parentOf parent root = root := by
  induction steps generalizing element with
  | zero => simp [climb?] at hclimb
  | succ steps ih =>
      have hlt := lt_size_of_climb? hclimb
      rw [climb?_succ hlt] at hclimb
      split at hclimb
      · next hroot =>
          obtain rfl := Option.some.inj hclimb
          exact ⟨hlt, hroot⟩
      · exact ih hclimb

theorem climb?_root {parent : Array Nat} {steps root : Nat} (hsteps : steps ≠ 0)
    (hlt : root < parent.size) (hroot : parentOf parent root = root) :
    climb? parent steps root = some root := by
  obtain ⟨steps, rfl⟩ := Nat.exists_eq_succ_of_ne_zero hsteps
  rw [climb?_succ hlt, if_pos hroot]

/-- A chain with a shortcut to its root is not longer. -/
theorem climb?_shortcut {parent : Array Nat} {steps element root other : Nat}
    (hlink : parentOf parent element ≠ element)
    (hclimb : climb? parent steps other = some root) :
    climb? (parent.setIfInBounds element root) steps other = some root := by
  have hshort : element < parent.size := lt_size_of_parentOf_ne hlink
  obtain ⟨hrootLt, hroot⟩ := climb?_ends hclimb
  have hne : root ≠ element := by
    rintro rfl
    exact hlink hroot
  have hrootKept : parentOf (parent.setIfInBounds element root) root = root := by
    rw [parentOf_setIfInBounds hshort, if_neg hne, hroot]
  induction steps generalizing other with
  | zero => simp [climb?] at hclimb
  | succ steps ih =>
      have hlt := lt_size_of_climb? hclimb
      rw [climb?_succ hlt] at hclimb
      rw [climb?_succ (by simpa using hlt), parentOf_setIfInBounds hshort]
      by_cases hother : other = element
      · subst hother
        rw [if_neg hlink] at hclimb
        have hsteps : steps ≠ 0 := by
          rintro rfl
          simp [climb?] at hclimb
        rw [if_pos rfl, if_neg hne]
        exact climb?_root hsteps (by simpa using hrootLt) hrootKept
      · rw [if_neg hother]
        split at hclimb
        · next hfixed => rw [if_pos hfixed, hclimb]
        · next hstep => rw [if_neg hstep, ih hclimb]

/-- Compression reads the links that the climb has read before, so none of them is missing. -/
theorem compress?_eq {root steps element : Nat} {parent : Array Nat}
    (hclimb : climb? parent steps element = some root) :
    compress? root steps element parent = some (compress root steps element parent) := by
  induction steps generalizing element parent with
  | zero => simp [climb?] at hclimb
  | succ steps ih =>
      have hlt := lt_size_of_climb? hclimb
      rw [climb?_succ hlt] at hclimb
      rw [compress?, compress, getElem?_parent hlt]
      simp only [Option.bind_eq_bind, Option.bind_some, write?, if_pos hlt]
      split at hclimb
      · next hroot => rw [if_pos hroot, if_pos hroot]; rfl
      · next hlink =>
          rw [if_neg hlink, if_neg hlink]
          exact ih (climb?_shortcut hlink hclimb)

/-- No access of a find of an element fails. -/
theorem Sound.find?_eq {sets : DisjointSets} (hsound : sets.Sound) {element : Nat}
    (helement : element < sets.parent.size) : sets.find? element = some (sets.find element) := by
  have hclimb := hsound.climb?_eq_root helement
  simp [DisjointSets.find?, DisjointSets.find, hclimb, compress?_eq hclimb]

theorem find?_of_size_le {sets : DisjointSets} {element : Nat}
    (helement : sets.parent.size ≤ element) : sets.find? element = none := by
  simp [find?, climb?_of_size_le helement]

/-! ## Uniting -/

theorem link?_eq {sets : DisjointSets} (hsize : sets.rank.size = sets.parent.size)
    {left right : Nat} (hleft : left < sets.parent.size) (hright : right < sets.parent.size) :
    sets.link? left right = some (sets.link left right) := by
  have hrank : ∀ element < sets.parent.size, sets.rank[element]? = some (sets.rankOf element) := by
    intro element helement
    simp [rankOf, hsize, helement]
  rw [link?, hrank left hleft, hrank right hright]
  simp only [Option.bind_eq_bind, Option.bind_some, write?, if_pos hleft, if_pos hright, hsize]
  rw [link]
  split
  · rfl
  · split <;> rfl

/-- No access of a union of two elements fails. -/
theorem Sound.union?_eq {sets : DisjointSets} (hsound : sets.Sound)
    (hsize : sets.rank.size = sets.parent.size) {left right : Nat}
    (hleft : left < sets.parent.size) (hright : right < sets.parent.size) :
    sets.union? left right = some (sets.union left right) := by
  have hfirst := hsound.find left
  have hright' : right < (sets.find left).2.parent.size := by rwa [size_parent_find]
  have hranks : ((sets.find left).2.find right).2.rank.size =
      ((sets.find left).2.find right).2.parent.size := by simpa using hsize
  have hlink := link?_eq hranks (hsound.root_lt_find_find left right hleft)
    (hsound.root_lt_find_find left right hright)
  simp only [union?, hsound.find?_eq hleft, Option.bind_eq_bind, Option.bind_some,
    hfirst.find?_eq hright', DisjointSets.union, fst_find, hsound.root_find, hlink]
  split <;> rfl

/-- A union with an argument that is no element fails. -/
theorem Sound.union?_of_size_le {sets : DisjointSets} (hsound : sets.Sound) {left right : Nat}
    (hout : sets.parent.size ≤ left ∨ sets.parent.size ≤ right) :
    sets.union? left right = none := by
  rcases Nat.lt_or_ge left sets.parent.size with hleft | hleft
  · have hright : (sets.find left).2.parent.size ≤ right := by
      rw [size_parent_find]
      omega
    simp [union?, hsound.find?_eq hleft, find?_of_size_le hright]
  · simp [union?, find?_of_size_le hleft]

end DisjointSets

namespace Graph

variable {W : Type}

/-- A run of unions along edges fails exactly if an edge leaves the graph. -/
theorem foldlM_union? {sets : DisjointSets} (hsound : sets.Sound)
    (hsize : sets.rank.size = sets.parent.size) (edges : List (Edge W)) :
    edges.foldlM (fun sets edge => sets.union? edge.source edge.target) sets =
      if edges.all (·.inRange sets.parent.size) then
        some (edges.foldl (fun sets edge => sets.union edge.source edge.target) sets)
      else none := by
  induction edges generalizing sets with
  | nil => rfl
  | cons edge rest ih =>
      rw [List.foldlM_cons, List.all_cons, List.foldl_cons]
      by_cases hrange : edge.inRange sets.parent.size
      · have hends : edge.source < sets.parent.size ∧ edge.target < sets.parent.size := by
          simpa [Edge.inRange] using hrange
        have hunion := hsound.union hends.1 hends.2
        rw [hsound.union?_eq hsize hends.1 hends.2, Option.bind_eq_bind, Option.bind_some,
          ih hunion.1 (by simpa using hsize), DisjointSets.size_parent_union, hrange, Bool.true_and]
      · have hout : sets.parent.size ≤ edge.source ∨ sets.parent.size ≤ edge.target := by
          simp [Edge.inRange] at hrange
          omega
        simp [hsound.union?_of_size_le hout, hrange]

theorem all_inRange_iff {graph : Graph W} :
    graph.edges.all (·.inRange graph.nodeCount) = true ↔ graph.InRange := by
  simp [InRange, Edge.inRange]

theorem nodeSets?_eq {graph : Graph W} (hrange : graph.InRange) :
    graph.nodeSets? = some graph.nodeSets := by
  have hsound := (DisjointSets.Represents.singletons graph.nodeCount).sound
  rw [nodeSets?, foldlM_union? hsound (by simp), DisjointSets.size_parent_singletons,
    if_pos (all_inRange_iff.mpr hrange), nodeSets]

theorem nodeSets?_eq_none {graph : Graph W} (hrange : ¬graph.InRange) :
    graph.nodeSets? = none := by
  have hsound := (DisjointSets.Represents.singletons graph.nodeCount).sound
  rw [nodeSets?, foldlM_union? hsound (by simp), DisjointSets.size_parent_singletons,
    if_neg (mt all_inRange_iff.mp hrange)]

end Graph

/-! ## The numbering -/

namespace ComponentLabels.Numbering

theorem size_parent_visit (numbering : Numbering) (node : Nat) :
    (numbering.visit node).sets.parent.size = numbering.sets.parent.size := by
  simp only [visit]
  split <;> simp

/-- The next node and its root have entries in the arrays of a numbering. -/
theorem Visited.visit?_eq {rootOf : Nat → Nat} {size visited : Nat} {numbering : Numbering}
    (hvisited : numbering.Visited rootOf size visited) (hroot : rootOf visited < size)
    (hparent : visited < numbering.sets.parent.size) :
    numbering.visit? visited = some (numbering.visit visited) := by
  have hlt : rootOf visited < numbering.ofRoot.size := by rwa [hvisited.size_ofRoot]
  have hread : numbering.ofRoot[rootOf visited]? =
      some (numbering.ofRoot.getD (rootOf visited) none) := by simp [hlt]
  simp only [visit?, hvisited.sound.find?_eq hparent, Option.bind_eq_bind, Option.bind_some,
    DisjointSets.fst_find, hvisited.root_eq, hread, Numbering.visit, DisjointSets.write?,
    if_pos hlt]
  split <;> rfl

theorem Visited.foldlM_visit? {rootOf : Nat → Nat} {size : Nat} {numbering : Numbering}
    (hstart : numbering.Visited rootOf size 0) (hroot : ∀ node < size, rootOf node < size)
    (hparent : numbering.sets.parent.size = size) {visited : Nat} (hle : visited ≤ size) :
    (List.range visited).foldlM Numbering.visit? numbering =
        some ((List.range visited).foldl Numbering.visit numbering) ∧
      ((List.range visited).foldl Numbering.visit numbering).sets.parent.size = size := by
  induction visited with
  | zero => exact ⟨rfl, hparent⟩
  | succ visited ih =>
      obtain ⟨hformer, hsize⟩ := ih (by omega)
      have hvisited := hstart.foldl_visit hroot (Nat.le_of_succ_le hle)
      rw [List.range_succ, List.foldlM_append, List.foldl_append, hformer]
      refine ⟨?_, ?_⟩
      · simpa using hvisited.visit?_eq (hroot visited hle) (by omega)
      · simpa [size_parent_visit] using hsize

end ComponentLabels.Numbering

namespace Graph

variable {W : Type}

/-- Components of a graph whose edges stay in range are found without a failing access. -/
theorem components?_eq {graph : Graph W} (hrange : graph.InRange) :
    graph.components? = some graph.components := by
  have hstart := ComponentLabels.Numbering.Visited.start (represents_nodeSets hrange).sound
    graph.nodeCount
  have hvisits := (hstart.foldlM_visit? (fun _ => representative_lt hrange)
    (size_parent_nodeSets graph) le_rfl).1
  simp [components?, nodeSets?_eq hrange, hvisits, components]

/-- An edge that leaves the graph makes an access fail. -/
theorem components?_eq_none {graph : Graph W} (hrange : ¬graph.InRange) :
    graph.components? = none := by
  simp [components?, nodeSets?_eq_none hrange]

end Graph

end AverageLinkage
