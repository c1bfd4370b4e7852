import Mathlib
import AverageLinkage.Forest.Text
import AverageLinkage.Proofs.FirstFault
import AverageLinkage.Proofs.ForestLeaves
import AverageLinkage.Proofs.GraphRoundTrip

/-!
# The plain text of a forest

The plain layout writes parents and children only.  That is enough for all but the heights:
the words of the text give back the links of every node, the nodes without children are the
leaves, the nodes that are their own parents are the roots, and the leaves below a node make
up its population.
-/

namespace AverageLinkage

namespace MergeForest

variable {W : Type} {forest other : MergeForest W}

/-! ## What the links determine -/

def Node.links (node : Node W) : Nat × Option (Nat × Nat) :=
  (node.parent, node.children)

/-- Two forests that differ in heights only. -/
structure SameShape (forest other : MergeForest W) : Prop where
  leafCount_eq : forest.leafCount = other.leafCount
  componentCount_eq : forest.componentCount = other.componentCount
  roots_eq : forest.roots = other.roots
  parent_eq : ∀ id, (forest.node? id).map Node.parent = (other.node? id).map Node.parent
  children_eq : ∀ id, (forest.node? id).map Node.children = (other.node? id).map Node.children
  population_eq : ∀ id,
    (forest.node? id).map Node.population = (other.node? id).map Node.population

def SameLinks (forest other : MergeForest W) : Prop :=
  forest.nodes.toList.map Node.links = other.nodes.toList.map Node.links

theorem SameLinks.symm (hlinks : forest.SameLinks other) : other.SameLinks forest :=
  Eq.symm hlinks

theorem SameLinks.size_eq (hlinks : forest.SameLinks other) : forest.size = other.size := by
  have hlength := congrArg List.length hlinks
  simp only [List.length_map, Array.length_toList] at hlength
  exact hlength

theorem SameLinks.links_eq (hlinks : forest.SameLinks other) (id : Nat) :
    (forest.node? id).map Node.links = (other.node? id).map Node.links := by
  have hget := congrArg (fun links => links[id]?) hlinks
  simp only [List.getElem?_map, Array.getElem?_toList] at hget
  exact hget

theorem SameLinks.parent_eq (hlinks : forest.SameLinks other) (id : Nat) :
    (forest.node? id).map Node.parent = (other.node? id).map Node.parent := by
  have hparent := congrArg (Option.map Prod.fst) (hlinks.links_eq id)
  rwa [Option.map_map, Option.map_map] at hparent

theorem SameLinks.children_eq (hlinks : forest.SameLinks other) (id : Nat) :
    (forest.node? id).map Node.children = (other.node? id).map Node.children := by
  have hchildren := congrArg (Option.map Prod.snd) (hlinks.links_eq id)
  rwa [Option.map_map, Option.map_map] at hchildren

theorem SameLinks.roots_eq (hlinks : forest.SameLinks other) : forest.roots = other.roots := by
  rw [roots, roots, hlinks.size_eq]
  refine List.filter_congr fun id _ => ?_
  have hparent := congrArg (Option.any (· == id)) (hlinks.parent_eq id)
  rwa [Option.any_map, Option.any_map] at hparent

theorem SameLinks.childList_eq (hlinks : forest.SameLinks other) :
    forest.childList = other.childList := by
  funext parent
  have hchildren : ((forest.node? parent).map Node.children).bind id =
      ((other.node? parent).map Node.children).bind id := by
    rw [hlinks.children_eq]
  rw [Option.bind_map, Option.bind_map, Function.id_comp] at hchildren
  rw [childList, childList, hchildren]

/-- The lowest number of a node with children is the number of leaves. -/
theorem SameLinks.leafCount_le (hlinks : forest.SameLinks other) (hforest : forest.WellFormed)
    (hother : other.WellFormed) : forest.leafCount ≤ other.leafCount := by
  by_contra! hlt
  obtain ⟨node, hnode, hleaf⟩ := hforest.leaf _ hlt
  have hchildren := hlinks.children_eq other.leafCount
  rw [hnode, Option.map_some, hleaf, eq_comm, Option.map_eq_some_iff] at hchildren
  obtain ⟨inner, hinner, hnone⟩ := hchildren
  obtain ⟨first, second, hsome, -⟩ := hother.inner _ inner le_rfl hinner
  cases hnone.symm.trans hsome

theorem SameLinks.leafCount_eq (hlinks : forest.SameLinks other) (hforest : forest.WellFormed)
    (hother : other.WellFormed) : forest.leafCount = other.leafCount :=
  (hlinks.leafCount_le hforest hother).antisymm (hlinks.symm.leafCount_le hother hforest)

/-- The leaves below a node can be found from the links alone. -/
theorem SameLinks.leavesBelow_eq (hlinks : forest.SameLinks other)
    (hleaves : forest.leafCount = other.leafCount) (id : Nat) :
    forest.leavesBelow id = other.leavesBelow id := by
  rw [leavesBelow, leavesBelow, hleaves, Below, Below, hlinks.childList_eq]

/-- Well-formed forests whose nodes count the leaves below them have the same shape if they
have the same links. -/
theorem SameLinks.sameShape (hlinks : forest.SameLinks other) (hforest : forest.WellFormed)
    (hother : other.WellFormed)
    (hpopulation : ∀ id node, forest.node? id = some node →
      node.population = (forest.leavesBelow id).ncard)
    (hpopulation' : ∀ id node, other.node? id = some node →
      node.population = (other.leavesBelow id).ncard) : forest.SameShape other where
  leafCount_eq := hlinks.leafCount_eq hforest hother
  componentCount_eq := by
    rw [← hforest.length_roots, ← hother.length_roots, hlinks.roots_eq]
  roots_eq := hlinks.roots_eq
  parent_eq := hlinks.parent_eq
  children_eq := hlinks.children_eq
  population_eq := by
    intro id
    have hsame := hlinks.parent_eq id
    cases hnode : forest.node? id with
    | none =>
        rw [hnode, Option.map_none, eq_comm, Option.map_eq_none_iff] at hsame
        rw [hsame, Option.map_none]
    | some node =>
        rw [hnode, Option.map_some, eq_comm, Option.map_eq_some_iff] at hsame
        obtain ⟨twin, htwin, -⟩ := hsame
        rw [htwin, Option.map_some, Option.map_some, hpopulation id node hnode,
          hpopulation' id twin htwin,
          hlinks.leavesBelow_eq (hlinks.leafCount_eq hforest hother)]

/-! ## The words of the text -/

open Text (IsToken spaced tokenLine)

/-- What stands for a child that is not there. -/
def absentWord : List Char :=
  ['-', '1']

def childWord : Option Nat → List Char
  | none => absentWord
  | some child => Nat.toDigits 10 child

def linkWords (links : Nat × Option (Nat × Nat)) : List (List Char) :=
  [Nat.toDigits 10 links.1, childWord (links.2.map Prod.fst), childWord (links.2.map Prod.snd)]

/-- The words of the text of a forest, line by line. -/
def plainWords (forest : MergeForest W) : List (List (List Char)) :=
  [Nat.toDigits 10 forest.size] :: (forest.nodes.toList.map Node.links).map linkWords

theorem toDigits_injective : Function.Injective (Nat.toDigits 10) := by
  intro left right heq
  rw [← Natural.ofDigits_toDigits left, heq, Natural.ofDigits_toDigits]

/-- No number is written like a child that is not there. -/
theorem toDigits_ne_absentWord (value : Nat) : Nat.toDigits 10 value ≠ absentWord := by
  intro heq
  have hminus : '-' ∈ Nat.toDigits 10 value := by
    rw [heq, absentWord]
    exact List.mem_cons_self
  exact absurd (Natural.isDigit_toDigits hminus) (by decide)

theorem childWord_eq_absentWord_iff {child : Option Nat} :
    childWord child = absentWord ↔ child = none := by
  cases child with
  | none => simp [childWord]
  | some child => simp [childWord, toDigits_ne_absentWord]

theorem childWord_injective : Function.Injective childWord := by
  intro left right heq
  cases left with
  | none => exact (childWord_eq_absentWord_iff.mp heq.symm).symm
  | some child =>
      cases right with
      | none => exact childWord_eq_absentWord_iff.mp heq
      | some twin => exact congrArg some (toDigits_injective heq)

/-- The words of a line determine the links of its node. -/
theorem linkWords_injective : Function.Injective linkWords := by
  rintro ⟨parent, children⟩ ⟨parent', children'⟩ heq
  simp only [linkWords, List.cons.injEq, and_true] at heq
  obtain ⟨hparent, hfirst, hsecond⟩ := heq
  have hchildren : children = children' := by
    have hfirst := childWord_injective hfirst
    have hsecond := childWord_injective hsecond
    cases children with
    | none => exact (Option.map_eq_none_iff.mp hfirst.symm).symm
    | some slots =>
        obtain ⟨slots', rfl, hfst⟩ := Option.map_eq_some_iff.mp hfirst.symm
        exact congrArg some (Prod.ext hfst.symm (Option.some.inj hsecond))
  rw [toDigits_injective hparent, hchildren]

theorem isToken_childWord (child : Option Nat) : IsToken (childWord child) := by
  cases child with
  | none => exact ⟨by decide, by simp [childWord, absentWord, Text.IsGraphic]⟩
  | some child => exact Graph.isToken_toDigits child

theorem isToken_plainWords (forest : MergeForest W) :
    ∀ tokens ∈ forest.plainWords, ∀ token ∈ tokens, IsToken token := by
  intro tokens hmem
  rcases List.mem_cons.mp hmem with rfl | hmem
  · simp [Graph.isToken_toDigits]
  · obtain ⟨links, -, rfl⟩ := List.mem_map.mp hmem
    simp [linkWords, Graph.isToken_toDigits, isToken_childWord]

theorem renderNode_plain (node : Node Float) :
    renderNode .plain node = tokenLine (linkWords node.links) := by
  rw [renderNode, tokenLine, linkWords, Text.spaced_cons_cons, Text.spaced_cons_cons, Node.links]
  apply String.toList_inj.mp
  cases node.children with
  | none => simp [spaced, renderChildren, childWord, absentWord, Graph.toString_string]
  | some children => simp [spaced, renderChildren, childWord, Graph.toString_string]

/-- The text without heights consists of lines of tokens. -/
theorem render_plain (forest : MergeForest Float) :
    forest.render .plain = String.join (forest.plainWords.map tokenLine) := by
  have hheader : s!"{forest.size}\n" = tokenLine [Nat.toDigits 10 forest.size] := by
    rw [tokenLine]
    apply String.toList_inj.mp
    simp [spaced, Graph.toString_string]
  have hnodes : renderNode .plain = tokenLine ∘ linkWords ∘ Node.links := funext renderNode_plain
  rw [render, plainWords, List.map_cons, String.join_cons, hheader, hnodes, List.map_map,
    List.map_map, Function.comp_assoc]

/-- Reading the text line by line gives its words back. -/
theorem views_render_plain (forest : MergeForest Float) :
    (Input.ofBytes (Text.encode (forest.render .plain))).views = forest.plainWords.map .ok := by
  rw [render_plain, Input.views, Text.words_join_tokenLine (isToken_plainWords forest)]

/-- Equal texts have the same words, and the words give back the links. -/
theorem sameLinks_of_render_plain {forest other : MergeForest Float}
    (htext : forest.render .plain = other.render .plain) : forest.SameLinks other := by
  have hviews := views_render_plain forest
  rw [htext, views_render_plain] at hviews
  have hwords := List.map_injective_iff.mpr (fun _ _ => Except.ok.inj) hviews
  exact List.map_injective_iff.mpr linkWords_injective (List.cons.inj hwords).2.symm

/-! ## Absent children and the size of the numbers -/

/-- The words of a text, line by line: the number of nodes and then the links of each node.
All numbers are identifiers, and `absentWord` stands in the lines of the leaves, for the two
children they lack, and nowhere else. -/
structure PlainText (forest : MergeForest W) (lines : List (List (List Char))) : Prop where
  length_eq : lines.length = forest.size + 1
  header : lines[0]? = some [Nat.toDigits 10 forest.size]
  node : ∀ id node, forest.node? id = some node → lines[id + 1]? = some (linkWords node.links)
  bounded : ∀ tokens ∈ lines, ∀ word ∈ tokens,
    word = absentWord ∨ ∃ value ≤ Linkage.idLimit, word = Nat.toDigits 10 value
  absent_iff : ∀ id node tokens place,
    forest.node? id = some node → lines[id + 1]? = some tokens →
    (tokens[place]? = some absentWord ↔ (place = 1 ∨ place = 2) ∧ node.children = none)
  mem_iff : ∀ index tokens, lines[index]? = some tokens →
    (absentWord ∈ tokens ↔ ∃ leaf < forest.leafCount, index = leaf + 1)

theorem plainWords_succ (forest : MergeForest W) (id : Nat) :
    forest.plainWords[id + 1]? = (forest.node? id).map fun node => linkWords node.links := by
  rw [plainWords, List.getElem?_cons_succ, List.getElem?_map, List.getElem?_map,
    Array.getElem?_toList, Option.map_map]
  rfl

theorem getElem?_linkWords_eq_absentWord_iff {parent : Nat} {children : Option (Nat × Nat)}
    {place : Nat} : (linkWords (parent, children))[place]? = some absentWord ↔
      (place = 1 ∨ place = 2) ∧ children = none := by
  match place with
  | 0 => simp [linkWords, toDigits_ne_absentWord]
  | 1 => simp [linkWords, childWord_eq_absentWord_iff]
  | 2 => simp [linkWords, childWord_eq_absentWord_iff]
  | place + 3 => simp [linkWords]

/-- Only the line of a node without children has the word for an absent one. -/
theorem absentWord_mem_linkWords_iff {parent : Nat} {children : Option (Nat × Nat)} :
    absentWord ∈ linkWords (parent, children) ↔ children = none := by
  rw [List.mem_iff_getElem?]
  simp only [getElem?_linkWords_eq_absentWord_iff]
  exact ⟨fun ⟨_, _, hnone⟩ => hnone, fun hnone => ⟨1, .inl rfl, hnone⟩⟩

theorem WellFormed.children_eq_none_iff (hforest : forest.WellFormed) {id : Nat} {node : Node W}
    (hnode : forest.node? id = some node) : node.children = none ↔ id < forest.leafCount := by
  constructor
  · intro hnone
    by_contra! hinner
    obtain ⟨first, second, hsome, -⟩ := hforest.inner id node hinner hnode
    cases hnone.symm.trans hsome
  · intro hleaf
    obtain ⟨leaf, hget, hnone⟩ := hforest.leaf id hleaf
    obtain rfl := Option.some.inj (hnode.symm.trans hget)
    exact hnone

/-- All numbers in the links of a node are numbers of nodes. -/
theorem WellFormed.links_lt (hforest : forest.WellFormed) {id : Nat} {node : Node W}
    (hnode : forest.node? id = some node) :
    node.parent < forest.size ∧
      ∀ children, node.children = some children →
        children.1 < forest.size ∧ children.2 < forest.size := by
  have hid : id < forest.size := (Array.getElem?_eq_some_iff.mp hnode).1
  constructor
  · rcases hforest.parent id node hnode with hroot | ⟨-, -, hlt⟩
    · rwa [hroot]
    · exact hlt
  · intro children hchildren
    have hinner : forest.leafCount ≤ id := by
      rw [← Nat.not_lt, ← hforest.children_eq_none_iff hnode, hchildren]
      simp
    obtain ⟨first, second, hsome, hfirst, hsecond, -⟩ := hforest.inner id node hinner hnode
    obtain rfl := Option.some.inj (hchildren.symm.trans hsome)
    exact ⟨by omega, by omega⟩

theorem bounded_childWord {limit : Nat} {child : Option Nat}
    (hchild : ∀ value, child = some value → value ≤ limit) :
    childWord child = absentWord ∨ ∃ value ≤ limit, childWord child = Nat.toDigits 10 value := by
  cases child with
  | none => exact .inl rfl
  | some value => exact .inr ⟨value, hchild value rfl, rfl⟩

/-- All numbers in a line are nodes of the forest. -/
theorem WellFormed.bounded_linkWords (hforest : forest.WellFormed) {limit : Nat}
    (hlimit : forest.size ≤ limit) {id : Nat} {node : Node W}
    (hnode : forest.node? id = some node) :
    ∀ word ∈ linkWords node.links,
      word = absentWord ∨ ∃ value ≤ limit, word = Nat.toDigits 10 value := by
  obtain ⟨hparent, hchildren⟩ := hforest.links_lt hnode
  intro word hword
  simp only [Node.links, linkWords, List.mem_cons, List.not_mem_nil, or_false] at hword
  rcases hword with rfl | rfl | rfl
  · exact .inr ⟨node.parent, by omega, rfl⟩
  · refine bounded_childWord fun value hvalue => ?_
    obtain ⟨children, hsome, rfl⟩ := Option.map_eq_some_iff.mp hvalue
    exact (hchildren children hsome).1.le.trans hlimit
  · refine bounded_childWord fun value hvalue => ?_
    obtain ⟨children, hsome, rfl⟩ := Option.map_eq_some_iff.mp hvalue
    exact (hchildren children hsome).2.le.trans hlimit

/-- The words of a forest that is well-formed and not too large have the form of a plain text. -/
theorem WellFormed.plainText (hforest : forest.WellFormed)
    (hlimit : forest.size ≤ Linkage.idLimit) :
    forest.PlainText forest.plainWords where
  length_eq := by simp [plainWords, size]
  header := rfl
  node := by
    intro id node hnode
    rw [plainWords_succ, hnode, Option.map_some]
  bounded := by
    intro tokens htokens word hword
    obtain ⟨index, hindex⟩ := List.mem_iff_getElem?.mp htokens
    cases index with
    | zero =>
        obtain rfl := Option.some.inj hindex
        exact .inr ⟨forest.size, hlimit, List.mem_singleton.mp hword⟩
    | succ id =>
        rw [plainWords_succ, Option.map_eq_some_iff] at hindex
        obtain ⟨node, hnode, rfl⟩ := hindex
        exact hforest.bounded_linkWords hlimit hnode word hword
  absent_iff := by
    intro id node tokens place hnode htokens
    rw [plainWords_succ, hnode, Option.map_some, Option.some.injEq] at htokens
    rw [← htokens, Node.links, getElem?_linkWords_eq_absentWord_iff]
  mem_iff := by
    intro index tokens htokens
    cases index with
    | zero =>
        obtain rfl := Option.some.inj htokens
        simp [(toDigits_ne_absentWord forest.size).symm]
    | succ id =>
        rw [plainWords_succ, Option.map_eq_some_iff] at htokens
        obtain ⟨node, hnode, rfl⟩ := htokens
        rw [Node.links, absentWord_mem_linkWords_iff, hforest.children_eq_none_iff hnode]
        simp

end MergeForest

namespace Graph

theorem Clustered.wellFormed_forest {W : Type} [Weight W] {graph : Graph W} {linkage : Linkage W}
    (hlinkage : graph.Clustered linkage) (hgraph : graph.Proper) : linkage.forest.WellFormed := by
  have hinv := hlinkage.invariant hgraph
  have hcard := hlinkage.card_current hgraph
  have hcount := hinv.partitioned.card_current
  rw [hlinkage.forest_eq]
  exact hinv.recorded.wellFormed hcard (by omega)

/-- A clustering has fewer nodes than there are identifiers. -/
theorem size_forest_le_idLimit {W : Type} [Weight W] {graph : Graph W} {linkage : Linkage W}
    (hrun : graph.cluster = .ok linkage) : linkage.forest.size ≤ Linkage.idLimit := by
  obtain ⟨hgraph, hlinkage⟩ := proper_of_cluster hrun
  obtain ⟨hlimit, -⟩ := exists_cluster_iff.mp ⟨linkage, hrun⟩
  have hsize := (hlinkage.wellFormed_forest hgraph).size_eq
  have hleaves : linkage.forest.leafCount = graph.nodeCount := hlinkage.1
  omega

/-- The plain text determines all of a forest but its heights.  Its words are the size of the
forest and the links of the nodes, with `-1` for the children that leaves do not have. -/
theorem render_plain_determines {graph : Graph Float} {linkage : Linkage Float}
    (hrun : graph.cluster = .ok linkage) :
    (∀ (other : Graph Float) (otherLinkage : Linkage Float), other.cluster = .ok otherLinkage →
      linkage.forest.render .plain = otherLinkage.forest.render .plain →
      linkage.forest.SameShape otherLinkage.forest) ∧
    ∃ lines, (Input.ofBytes (Text.encode (linkage.forest.render .plain))).views = lines.map .ok ∧
      linkage.forest.PlainText lines := by
  obtain ⟨hgraph, hlinkage⟩ := proper_of_cluster hrun
  have hforest := hlinkage.wellFormed_forest hgraph
  constructor
  · intro other otherLinkage hother htext
    obtain ⟨hotherGraph, hotherLinkage⟩ := proper_of_cluster hother
    exact (MergeForest.sameLinks_of_render_plain htext).sameShape hforest
      (hotherLinkage.wellFormed_forest hotherGraph)
      (fun _ _ => hlinkage.population_eq_ncard hgraph)
      (fun _ _ => hotherLinkage.population_eq_ncard hotherGraph)
  · exact ⟨_, MergeForest.views_render_plain _, hforest.plainText (size_forest_le_idLimit hrun)⟩

/-- A path of three nodes beside a node alone. -/
def steep : Graph Float :=
  { nodeCount := 4
    edges := [{ source := 3, target := 1, weight := 8 },
      { source := 0, target := 3, weight := 2 }] }

def gentle : Graph Float :=
  { nodeCount := 4
    edges := [{ source := 0, target := 1, weight := 0.25 },
      { source := 1, target := 3, weight := 0.5 }] }

def steepText : String :=
  "6\n5 -1 -1\n4 -1 -1\n2 -1 -1\n4 -1 -1\n5 1 3\n5 0 4\n"

theorem render_plain_determines_steep :
    ∃ linkage other, steep.cluster = .ok linkage ∧ gentle.cluster = .ok other ∧
      linkage.forest ≠ other.forest ∧ linkage.forest.render .plain = steepText ∧
      other.forest.render .plain = steepText ∧ linkage.forest.SameShape other.forest ∧
      ∃ lines, (Input.ofBytes (Text.encode steepText)).views = lines.map .ok ∧
        linkage.forest.PlainText lines := by
  have hsteep : steep.cluster.toOption.map (fun linkage =>
      (linkage.forest.render .plain, (linkage.forest.node? 4).map MergeForest.Node.height)) =
      some (steepText, some 8) := by
    decide +kernel
  have hgentle : gentle.cluster.toOption.map (fun linkage =>
      (linkage.forest.render .plain, (linkage.forest.node? 4).map MergeForest.Node.height)) =
      some (steepText, some 0.5) := by
    decide +kernel
  obtain ⟨linkage, hrun, hview⟩ := exists_ok_of_toOption hsteep
  obtain ⟨other, hother, hotherView⟩ := exists_ok_of_toOption hgentle
  obtain ⟨htext, hheight⟩ := Prod.ext_iff.mp hview
  obtain ⟨hotherText, hotherHeight⟩ := Prod.ext_iff.mp hotherView
  simp only at htext hheight hotherText hotherHeight
  obtain ⟨hsame, hlines⟩ := render_plain_determines hrun
  rw [htext] at hlines
  refine ⟨linkage, other, hrun, hother, ?_, htext, hotherText,
    hsame gentle other hother (htext.trans hotherText.symm), hlines⟩
  intro heq
  rw [heq, hotherHeight] at hheight
  exact absurd hheight (by decide +kernel)

end Graph

end AverageLinkage
