import MiniC.Program.Tree
import MiniC.Proofs.Ast.Numbering

/-!
# Canonical arenas

An arena is canonical (`Arena.Canonical`) if it is the arena of one tree in preorder:
the root is node 0, walking it from there visits all numbers in order, each other node
is the child of exactly the node that it names as its parent, and each node has the
children that its kind takes (`Kind.Takes`).

The arena of a tree of the right shape is canonical (`canonical_ofTree`).  Every node of
such an arena is the root of a tree of the right shape that is stored at its number
(`subtree_of_holdsAt`), so that what is to be said of a node is said of the root of a
stored tree.
-/

namespace MiniC.Ast

namespace Kind

/-- Whether nodes of a kind are expressions. -/
def isExpression : Kind → Bool
  | binary _ | unary _ | assignment | call _ | number _ | identifier _ => true
  | _ => false

/-- Whether nodes of a kind are statements.  An expression is one by itself. -/
def isStatement : Kind → Bool
  | localDeclaration | block | ifStatement | whileStatement | returnStatement
  | breakStatement => true
  | kind => kind.isExpression

/-- Whether nodes of a kind stand at the top of a file. -/
def isItem : Kind → Bool
  | functionDefinition _ _ | functionDeclaration _ _ | globalDeclaration => true
  | _ => false

/-- Exactly one kind, of the sort that a test tells. -/
def One (test : Kind → Bool) (kinds : List Kind) : Prop := ∃ kind, kinds = [kind] ∧ test kind

/-- At most one kind, of the sort that a test tells. -/
def AtMostOne (test : Kind → Bool) (kinds : List Kind) : Prop := kinds = [] ∨ One test kinds

/-- The kinds of children that the nodes of a kind take in their slots.  A slot that the
kind does not have takes none. -/
def Takes (kind : Kind) (first second third : List Kind) : Prop :=
  match kind with
  | compileUnit => (∀ item ∈ first, item.isItem) ∧ second = [] ∧ third = []
  | functionDefinition _ _ =>
      (first = [] ∨ first = [parameterList]) ∧ second = [block] ∧
        ∃ text, third = [typeSpecifier text]
  | functionDeclaration _ _ => (first = [] ∨ first = [parameterList]) ∧ second = [] ∧ third = []
  | globalDeclaration | localDeclaration =>
      (∃ text name value, first = typeSpecifier text :: identifier name :: value ∧
        AtMostOne isExpression value) ∧ second = [] ∧ third = []
  | block => (∀ statement ∈ first, statement.isStatement) ∧ second = [] ∧ third = []
  | ifStatement => One isExpression first ∧ second = [block] ∧ (third = [] ∨ third = [block])
  | whileStatement => One isExpression first ∧ One isStatement second ∧ third = []
  | returnStatement => AtMostOne isExpression first ∧ second = [] ∧ third = []
  | binary _ => One isExpression first ∧ One isExpression second ∧ third = []
  | unary _ => One isExpression first ∧ second = [] ∧ third = []
  | assignment => (∃ name, first = [identifier name]) ∧ One isExpression second ∧ third = []
  | call _ => (first = [] ∨ first = [argumentList]) ∧ second = [] ∧ third = []
  | parameterList =>
      (∀ listed ∈ first, ∃ name typeName, listed = parameter name typeName) ∧
        second = [] ∧ third = []
  | argumentList => (∀ value ∈ first, value.isExpression) ∧ second = [] ∧ third = []
  | breakStatement | number _ | identifier _ | typeSpecifier _ | parameter _ _ =>
      first = [] ∧ second = [] ∧ third = []

theorem Takes.absent {kind : Kind} {first second third : List Kind}
    (h : kind.Takes first second third) :
    (kind.slotCount ≤ 0 → first = []) ∧ (kind.slotCount ≤ 1 → second = []) ∧
      (kind.slotCount ≤ 2 → third = []) := by
  cases kind <;> simp_all [Takes, slotCount]

end Kind

mutual

/-- Each node of a tree has the children that its kind takes. -/
def Tree.Shaped : Tree → Prop
  | .node kind _ first second third =>
      kind.Takes (first.map Tree.kind) (second.map Tree.kind) (third.map Tree.kind) ∧
        AllShaped first ∧ AllShaped second ∧ AllShaped third

/-- Each of several trees is of the right shape. -/
def AllShaped : List Tree → Prop
  | [] => True
  | tree :: trees => tree.Shaped ∧ AllShaped trees

end

namespace Arena

/-! ## Canonical arenas -/

mutual

/-- Walking an arena from a node on, children after their parents and slot by slot,
visits some numbers in order. -/
inductive Walks (arena : Arena) : Nat → List Nat → Prop
  | node {id : Nat} {node : Node} {below : List Nat} :
      arena.nodes[id]? = some node → WalksAll arena node.children below →
      Walks arena id (id :: below)

/-- Walking an arena from several nodes on, one after another. -/
inductive WalksAll (arena : Arena) : List Nat → List Nat → Prop
  | nil : WalksAll arena [] []
  | cons {id : Nat} {ids walk rest : List Nat} :
      Walks arena id walk → WalksAll arena ids rest → WalksAll arena (id :: ids) (walk ++ rest)

end

/-- The kind of the node with a number. -/
def kindAt? (arena : Arena) (id : Nat) : Option Kind := arena.nodes[id]?.map Node.kind

/-- The kinds of the children in a slot. -/
def kindsIn (arena : Arena) (node : Node) (slot : Nat) : List Kind :=
  (node.childrenIn slot).filterMap arena.kindAt?

/-- An arena that holds one tree, numbered in preorder. -/
structure Canonical (arena : Arena) : Prop where
  root_eq : arena.root = some 0
  root_node : ∃ node : Node, arena.nodes[0]? = some node ∧ node.kind = .compileUnit ∧
    node.parent = none
  /-- All nodes are reached from the root, and the number of each is its position. -/
  walks : arena.Walks 0 (List.range arena.size)
  serial_eq : ∀ (id : Nat) (node : Node), arena.nodes[id]? = some node → node.serial = id
  /-- A node other than the root is once a child of the node that it names as its
  parent, and of no other. -/
  placed : ∀ (id : Nat) (node : Node), arena.nodes[id]? = some node → id ≠ 0 →
    ∃ (parent : Nat) (owner : Node), node.parent = some parent ∧
      arena.nodes[parent]? = some owner ∧ owner.children.count id = 1 ∧
      ∀ (other : Nat) (stranger : Node), arena.nodes[other]? = some stranger → other ≠ parent →
        id ∉ stranger.children
  shaped : ∀ (id : Nat) (node : Node), arena.nodes[id]? = some node →
    node.slots.length = node.kind.slotCount ∧
      node.kind.Takes (arena.kindsIn node 0) (arena.kindsIn node 1) (arena.kindsIn node 2)

/-! ## Stored trees -/

variable {arena : Arena}

theorem WalksAll.append {ids more walk rest : List Nat} (h : arena.WalksAll ids walk)
    (hmore : arena.WalksAll more rest) : arena.WalksAll (ids ++ more) (walk ++ rest) := by
  induction ids generalizing walk with
  | nil =>
      cases h
      exact hmore
  | cons id ids ih =>
      cases h with
      | cons hfirst hids =>
          rw [List.cons_append, List.append_assoc]
          exact .cons hfirst (ih hids)

/-- The slots of the root of a stored tree, where absent slots are empty. -/
theorem flatten_take {kind : Kind} {one two three : List Nat}
    (hone : kind.slotCount ≤ 0 → one = []) (htwo : kind.slotCount ≤ 1 → two = [])
    (hthree : kind.slotCount ≤ 2 → three = []) :
    ([one, two, three].take kind.slotCount).flatten = one ++ two ++ three := by
  have hcount := kind.slotCount_le
  generalize kind.slotCount = count at *
  match count, hcount with
  | 0, _ => simp [hone (by omega), htwo (by omega), hthree (by omega)]
  | 1, _ => simp [htwo (by omega), hthree (by omega)]
  | 2, _ => simp [hthree (by omega)]
  | 3, _ => simp

theorem rootsFrom_eq_nil {start : Nat} {trees : List Tree} (h : trees.map Tree.kind = []) :
    rootsFrom start trees = [] := by
  rw [List.map_eq_nil_iff.mp h]
  rfl

/-- The children of the root of a stored tree are the roots of what is below it. -/
theorem children_root {kind : Kind} {first second third : List Tree} (one two three : Nat)
    (h : kind.Takes (first.map Tree.kind) (second.map Tree.kind) (third.map Tree.kind)) :
    ([rootsFrom one first, rootsFrom two second, rootsFrom three third].take
      kind.slotCount).flatten =
      rootsFrom one first ++ rootsFrom two second ++ rootsFrom three third := by
  obtain ⟨hfirst, hsecond, hthird⟩ := h.absent
  exact flatten_take (fun hle => rootsFrom_eq_nil (hfirst hle))
    (fun hle => rootsFrom_eq_nil (hsecond hle)) (fun hle => rootsFrom_eq_nil (hthird hle))

mutual

/-- Walking a stored tree visits its numbers in order. -/
theorem walks_of_holdsAt {id : Nat} {parent : Option Nat} : (tree : Tree) → tree.Shaped →
    arena.HoldsAt id (tree.nodesFrom id parent) → arena.Walks id (List.range' id tree.size)
  | .node kind location first second third, hshaped, h => by
      obtain ⟨htakes, hfirst, hsecond, hthird⟩ := hshaped
      obtain ⟨hroot, hone, htwo, hthree⟩ := h.parts
      have hwalks := ((walksAll_of_holdsAt first hfirst hone).append
        (walksAll_of_holdsAt second hsecond htwo)).append (walksAll_of_holdsAt third hthird hthree)
      have hsize : (Tree.node kind location first second third).size =
          sizeAll first + sizeAll second + sizeAll third + 1 := by
        rw [Tree.size]
        omega
      have hrange := List.range'_append_1 (s := id + 1) (m := sizeAll first + sizeAll second)
        (n := sizeAll third)
      rw [← List.range'_append_1, ← Nat.add_assoc] at hrange
      rw [hsize, List.range'_succ, ← hrange]
      refine .node hroot ?_
      rw [Node.children, children_root _ _ _ htakes]
      exact hwalks

theorem walksAll_of_holdsAt {start parent : Nat} : (trees : List Tree) → AllShaped trees →
    arena.HoldsAt start (nodesFromAll start parent trees) →
    arena.WalksAll (rootsFrom start trees) (List.range' start (sizeAll trees))
  | [], _, _ => .nil
  | tree :: trees, hshaped, h => by
      obtain ⟨hfirst, hrest⟩ := h.first
      rw [rootsFrom, sizeAll, ← List.range'_append_1]
      exact .cons (walks_of_holdsAt tree hshaped.1 hfirst)
        (walksAll_of_holdsAt trees hshaped.2 hrest)

end

/-! ## Parents and children -/

theorem child_of_mem_rootsFrom {start parent : Nat} {trees : List Tree}
    (h : arena.HoldsAt start (nodesFromAll start parent trees)) {id : Nat}
    (hid : id ∈ rootsFrom start trees) :
    ∃ node, arena.nodes[id]? = some node ∧ node.parent = some parent := by
  induction trees generalizing start with
  | nil => cases hid
  | cons tree trees ih =>
      obtain ⟨hfirst, hrest⟩ := h.first
      rw [rootsFrom, List.mem_cons] at hid
      rcases hid with rfl | hid
      · obtain ⟨kind, location, first, second, third⟩ := tree
        exact ⟨_, hfirst.parts.1, rfl⟩
      · exact ih hrest hid

/-- The roots of trees stored one after another are in order. -/
theorem rootsFrom_sorted (start : Nat) (trees : List Tree) :
    (rootsFrom start trees).Pairwise (· < ·) ∧
      ∀ id ∈ rootsFrom start trees, start ≤ id ∧ id < start + sizeAll trees := by
  induction trees generalizing start with
  | nil => exact ⟨.nil, fun id hid => nomatch hid⟩
  | cons tree trees ih =>
      obtain ⟨hsorted, hrange⟩ := ih (start + tree.size)
      have hpos := tree.size_pos
      refine ⟨List.pairwise_cons.mpr ⟨fun id hid => ?_, hsorted⟩, fun id hid => ?_⟩
      · have := hrange id hid
        omega
      · rw [sizeAll]
        rcases List.mem_cons.mp hid with rfl | hid
        · omega
        · have := hrange id hid
          omega

/-- The kinds of the roots are those of the trees. -/
theorem filterMap_kind_rootsFrom {start parent : Nat} {trees : List Tree}
    (h : arena.HoldsAt start (nodesFromAll start parent trees)) :
    (rootsFrom start trees).filterMap arena.kindAt? = trees.map Tree.kind := by
  induction trees generalizing start with
  | nil => rfl
  | cons tree trees ih =>
      obtain ⟨hfirst, hrest⟩ := h.first
      obtain ⟨kind, location, first, second, third⟩ := tree
      have hroot : arena.kindAt? start = some kind := by
        rw [kindAt?, hfirst.parts.1]
        rfl
      rw [rootsFrom, List.filterMap_cons_some hroot, ih hrest]
      rfl

/-- A node stands among the children of its parent. -/
def StandsUnder (arena : Arena) (id : Nat) (parent : Option Nat) : Prop :=
  ∃ above owner, parent = some above ∧ arena.nodes[above]? = some owner ∧ id ∈ owner.children

/-- A tree of the right shape is stored at a number, below a parent. -/
def Rooted (arena : Arena) (id : Nat) (parent : Option Nat) : Prop :=
  ∃ tree : Tree, tree.Shaped ∧ arena.HoldsAt id (tree.nodesFrom id parent)

mutual

/-- Every number in the range of a stored tree is that of a stored tree, which is the
whole or stands under its parent. -/
theorem subtree_of_holdsAt {id : Nat} {parent : Option Nat} : (tree : Tree) → tree.Shaped →
    arena.HoldsAt id (tree.nodesFrom id parent) → ∀ number, id ≤ number →
    number < id + tree.size → ∃ above, arena.Rooted number above ∧
      (number = id ∧ above = parent ∨ arena.StandsUnder number above)
  | .node kind location first second third, hshaped, h, number, hle, hlt => by
      rcases Nat.eq_or_lt_of_le hle with rfl | hbelow
      · exact ⟨parent, ⟨_, hshaped, h⟩, .inl ⟨rfl, rfl⟩⟩
      obtain ⟨htakes, hfirst, hsecond, hthird⟩ := hshaped
      obtain ⟨hroot, hone, htwo, hthree⟩ := h.parts
      -- a child of the root stands under it
      have hstands : ∀ above, number ∈ rootsFrom (id + 1) first ++
          rootsFrom (id + 1 + sizeAll first) second ++
          rootsFrom (id + 1 + sizeAll first + sizeAll second) third → above = some id →
          arena.StandsUnder number above := by
        intro above hmem habove
        refine ⟨id, _, habove, hroot, ?_⟩
        rw [Node.children, children_root _ _ _ htakes]
        exact hmem
      rw [Tree.size] at hlt
      by_cases hinFirst : number < id + 1 + sizeAll first
      · obtain ⟨above, hrooted, hplace⟩ :=
          subtree_of_holdsAt_all first hfirst hone number hbelow hinFirst
        refine ⟨above, hrooted, .inr ?_⟩
        rcases hplace with ⟨hmem, habove⟩ | hplace
        · exact hstands above (List.mem_append_left _ (List.mem_append_left _ hmem)) habove
        · exact hplace
      by_cases hinSecond : number < id + 1 + sizeAll first + sizeAll second
      · obtain ⟨above, hrooted, hplace⟩ :=
          subtree_of_holdsAt_all second hsecond htwo number (by omega) hinSecond
        refine ⟨above, hrooted, .inr ?_⟩
        rcases hplace with ⟨hmem, habove⟩ | hplace
        · exact hstands above (List.mem_append_left _ (List.mem_append_right _ hmem)) habove
        · exact hplace
      · obtain ⟨above, hrooted, hplace⟩ :=
          subtree_of_holdsAt_all third hthird hthree number (by omega) (by omega)
        refine ⟨above, hrooted, .inr ?_⟩
        rcases hplace with ⟨hmem, habove⟩ | hplace
        · exact hstands above (List.mem_append_right _ hmem) habove
        · exact hplace

theorem subtree_of_holdsAt_all {start parent : Nat} : (trees : List Tree) → AllShaped trees →
    arena.HoldsAt start (nodesFromAll start parent trees) → ∀ number, start ≤ number →
    number < start + sizeAll trees → ∃ above, arena.Rooted number above ∧
      (number ∈ rootsFrom start trees ∧ above = some parent ∨ arena.StandsUnder number above)
  | [], _, _, number, hle, hlt => by
      rw [sizeAll] at hlt
      omega
  | tree :: trees, hshaped, h, number, hle, hlt => by
      obtain ⟨hfirst, hrest⟩ := h.first
      rw [sizeAll] at hlt
      rcases Nat.lt_or_ge number (start + tree.size) with hin | hafter
      · obtain ⟨above, hrooted, hplace⟩ :=
          subtree_of_holdsAt tree hshaped.1 hfirst number hle hin
        refine ⟨above, hrooted, hplace.imp_left ?_⟩
        rintro ⟨rfl, habove⟩
        exact ⟨List.mem_cons_self, habove⟩
      · obtain ⟨above, hrooted, hplace⟩ :=
          subtree_of_holdsAt_all trees hshaped.2 hrest number hafter (by omega)
        exact ⟨above, hrooted, hplace.imp_left fun ⟨hmem, habove⟩ =>
          ⟨List.mem_cons_of_mem _ hmem, habove⟩⟩

end

/-! ## The root of a stored tree -/

/-- The kinds in a slot of the root of a stored tree.  Trees stand only in slots that
the kind of the root has. -/
theorem kindsIn_slot {kind : Kind} {node : Node} {one two three : List Nat}
    {first second third : List Kind} (htakes : kind.Takes first second third)
    (hslots : node.slots = [one, two, three].take kind.slotCount)
    (hone : one.filterMap arena.kindAt? = first) (htwo : two.filterMap arena.kindAt? = second)
    (hthree : three.filterMap arena.kindAt? = third) :
    kind.Takes (arena.kindsIn node 0) (arena.kindsIn node 1) (arena.kindsIn node 2) := by
  obtain ⟨hfirst, hsecond, hthird⟩ := htakes.absent
  have hcount := kind.slotCount_le
  have heqs : arena.kindsIn node 0 = first ∧ arena.kindsIn node 1 = second ∧
      arena.kindsIn node 2 = third := by
    simp only [kindsIn, Node.childrenIn, hslots]
    generalize kind.slotCount = count at *
    have hcases : count = 0 ∨ count = 1 ∨ count = 2 ∨ count = 3 := by omega
    rcases hcases with rfl | rfl | rfl | rfl
    · simp [hfirst (by omega), hsecond (by omega), hthird (by omega)]
    · simp [hone, hsecond (by omega), hthird (by omega)]
    · simp [hone, htwo, hthird (by omega)]
    · simp [hone, htwo, hthree]
  rw [heqs.1, heqs.2.1, heqs.2.2]
  exact htakes

/-- What is at the number of a stored tree. -/
theorem Rooted.node {id : Nat} {parent : Option Nat} (h : arena.Rooted id parent) :
    ∃ node, arena.nodes[id]? = some node ∧ node.serial = id ∧ node.parent = parent ∧
      node.slots.length = node.kind.slotCount ∧
      node.kind.Takes (arena.kindsIn node 0) (arena.kindsIn node 1) (arena.kindsIn node 2) ∧
      node.children.Nodup ∧
      ∀ child ∈ node.children, ∃ below, arena.nodes[child]? = some below ∧
        below.parent = some id := by
  obtain ⟨⟨kind, location, first, second, third⟩, ⟨htakes, -⟩, hholds⟩ := h
  obtain ⟨hroot, hone, htwo, hthree⟩ := hholds.parts
  have hchildren := children_root (id + 1) (id + 1 + sizeAll first)
    (id + 1 + sizeAll first + sizeAll second) htakes
  refine ⟨_, hroot, rfl, rfl, ?_, ?_, ?_, ?_⟩
  · rw [List.length_take]
    exact Nat.min_eq_left kind.slotCount_le
  · exact kindsIn_slot htakes rfl (filterMap_kind_rootsFrom hone) (filterMap_kind_rootsFrom htwo)
      (filterMap_kind_rootsFrom hthree)
  · -- the numbers of the children grow from each to the next
    rw [Node.children, hchildren]
    obtain ⟨hsortedOne, hrangeOne⟩ := rootsFrom_sorted (id + 1) first
    obtain ⟨hsortedTwo, hrangeTwo⟩ := rootsFrom_sorted (id + 1 + sizeAll first) second
    obtain ⟨hsortedThree, hrangeThree⟩ :=
      rootsFrom_sorted (id + 1 + sizeAll first + sizeAll second) third
    have hsorted : (rootsFrom (id + 1) first ++ rootsFrom (id + 1 + sizeAll first) second ++
        rootsFrom (id + 1 + sizeAll first + sizeAll second) third).Pairwise (· < ·) := by
      refine List.pairwise_append.mpr ⟨List.pairwise_append.mpr ⟨hsortedOne, hsortedTwo, ?_⟩,
        hsortedThree, ?_⟩
      · intro child hchild other hother
        have := hrangeOne child hchild
        have := hrangeTwo other hother
        omega
      · intro child hchild other hother
        have := hrangeThree other hother
        rcases List.mem_append.mp hchild with hchild | hchild
        · have := hrangeOne child hchild
          omega
        · have := hrangeTwo child hchild
          omega
    exact hsorted.imp Nat.ne_of_lt
  · rw [Node.children, hchildren]
    intro child hchild
    rw [List.mem_append, List.mem_append] at hchild
    rcases hchild with (hmem | hmem) | hmem
    · exact child_of_mem_rootsFrom hone hmem
    · exact child_of_mem_rootsFrom htwo hmem
    · exact child_of_mem_rootsFrom hthree hmem

/-- **The arena of a tree of the right shape is canonical.** -/
theorem canonical_ofTree {tree : Tree} (hshaped : tree.Shaped) (hkind : tree.kind = .compileUnit) :
    (ofTree tree).Canonical := by
  have hholds := holdsAt_ofTree tree
  have hsize : (ofTree tree).size = tree.size := by
    rw [ofTree_eq]
    simp [setRoot, ofNodes, size]
  -- every node is the root of a stored tree
  have hrooted : ∀ id node, (ofTree tree).nodes[id]? = some node → ∃ above,
      (ofTree tree).Rooted id above ∧
        (id = 0 ∧ above = none ∨ (ofTree tree).StandsUnder id above) := by
    intro id node hnode
    have hlt : id < (ofTree tree).size := (Array.getElem?_eq_some_iff.mp hnode).1
    exact subtree_of_holdsAt tree hshaped hholds id (Nat.zero_le id) (by omega)
  refine ⟨?_, ?_, ?_, ?_, ?_, ?_⟩
  · rw [ofTree_eq]
    rfl
  · obtain ⟨kind, location, first, second, third⟩ := tree
    exact ⟨_, hholds.parts.1, hkind, rfl⟩
  · rw [hsize, List.range_eq_range']
    exact walks_of_holdsAt tree hshaped hholds
  · intro id node hnode
    obtain ⟨above, hroot, -⟩ := hrooted id node hnode
    obtain ⟨same, hsame, hserial, -⟩ := hroot.node
    obtain rfl : same = node := Option.some.inj (hsame.symm.trans hnode)
    exact hserial
  · intro id node hnode hne
    obtain ⟨above, hroot, hplace⟩ := hrooted id node hnode
    obtain ⟨same, hsame, -, hparent, -⟩ := hroot.node
    obtain rfl : same = node := Option.some.inj (hsame.symm.trans hnode)
    obtain ⟨hzero, -⟩ | ⟨parent, owner, rfl, howner, hmem⟩ := hplace
    · exact absurd hzero hne
    refine ⟨parent, owner, hparent, howner, ?_, ?_⟩
    · obtain ⟨_, hownerRoot, -⟩ := hrooted parent owner howner
      obtain ⟨holder, hholder, -, -, -, -, hnodup, -⟩ := hownerRoot.node
      obtain rfl : holder = owner := Option.some.inj (hholder.symm.trans howner)
      rw [hnodup.count, if_pos hmem]
    · -- the children of a stranger name the stranger as their parent
      intro other stranger hstranger hother hchild
      obtain ⟨_, hstrangerRoot, -⟩ := hrooted other stranger hstranger
      obtain ⟨holder, hholder, -, -, -, -, -, hbelow⟩ := hstrangerRoot.node
      obtain rfl : holder = stranger := Option.some.inj (hholder.symm.trans hstranger)
      obtain ⟨below, hbelowNode, hnames⟩ := hbelow id hchild
      obtain rfl : below = same := Option.some.inj (hbelowNode.symm.trans hnode)
      exact hother (Option.some.inj (hnames.symm.trans hparent))
  · intro id node hnode
    obtain ⟨above, hroot, -⟩ := hrooted id node hnode
    obtain ⟨same, hsame, -, -, hslots, htakes, -⟩ := hroot.node
    obtain rfl : same = node := Option.some.inj (hsame.symm.trans hnode)
    exact ⟨hslots, htakes⟩

end Arena

end MiniC.Ast

namespace MiniC

open Ast (AllShaped Kind Tree)
open Ast.Kind (AtMostOne One Takes)

/-! ## The trees of programs -/

theorem one_of_kind {test : Kind → Bool} {tree : Tree} (h : test tree.kind) :
    One test ([tree].map Tree.kind) :=
  ⟨tree.kind, rfl, h⟩

theorem shaped_leaf {kind : Kind} {location : Location} (h : kind.Takes [] [] []) :
    (Tree.leaf kind location).Shaped :=
  ⟨h, trivial, trivial, trivial⟩

theorem allShaped_of_forall {trees : List Tree} (h : ∀ tree ∈ trees, tree.Shaped) :
    AllShaped trees := by
  induction trees with
  | nil => trivial
  | cons tree trees ih =>
      exact ⟨h tree List.mem_cons_self, ih fun other hother => h other (.tail _ hother)⟩

theorem Expr.isExpression_kind (expr : Expr) : expr.toTree.kind.isExpression := by
  cases expr with
  | call location callee list => cases list <;> rfl
  | number | name | binary | unary | assign => rfl

theorem ArgumentList.kinds_toTree (list : ArgumentList) :
    [list.toTree].map Tree.kind = [.argumentList] := by
  cases list
  rfl

mutual

theorem Expr.shaped : (expr : Expr) → expr.toTree.Shaped
  | .number _ _ | .name _ _ => shaped_leaf ⟨rfl, rfl, rfl⟩
  | .binary _ _ left right =>
      ⟨⟨one_of_kind left.isExpression_kind, one_of_kind right.isExpression_kind, rfl⟩,
        ⟨left.shaped, trivial⟩, ⟨right.shaped, trivial⟩, trivial⟩
  | .unary _ _ operand =>
      ⟨⟨one_of_kind operand.isExpression_kind, rfl, rfl⟩, ⟨operand.shaped, trivial⟩, trivial,
        trivial⟩
  | .assign _ _ target value =>
      ⟨⟨⟨target, rfl⟩, one_of_kind value.isExpression_kind, rfl⟩,
        ⟨shaped_leaf ⟨rfl, rfl, rfl⟩, trivial⟩, ⟨value.shaped, trivial⟩, trivial⟩
  | .call _ _ none => shaped_leaf ⟨.inl rfl, rfl, rfl⟩
  | .call _ _ (some list) =>
      ⟨⟨.inr list.kinds_toTree, rfl, rfl⟩, ⟨list.shaped, trivial⟩, trivial, trivial⟩

theorem ArgumentList.shaped : (list : ArgumentList) → list.toTree.Shaped
  | ⟨_, values⟩ =>
      have hvalues := shaped_expressionTrees values
      ⟨⟨hvalues.1, rfl, rfl⟩, hvalues.2, trivial, trivial⟩

theorem shaped_expressionTrees : (values : List Expr) →
    (∀ kind ∈ (expressionTrees values).map Tree.kind, kind.isExpression) ∧
      AllShaped (expressionTrees values)
  | [] => ⟨List.forall_mem_nil _, trivial⟩
  | value :: values => by
      obtain ⟨hkinds, hshaped⟩ := shaped_expressionTrees values
      refine ⟨?_, value.shaped, hshaped⟩
      rw [expressionTrees, List.map_cons, List.forall_mem_cons]
      exact ⟨value.isExpression_kind, hkinds⟩

end

theorem ParameterList.shaped (list : ParameterList) : list.toTree.Shaped := by
  refine ⟨⟨?_, rfl, rfl⟩, allShaped_of_forall ?_, trivial, trivial⟩
  · intro kind hkind
    rw [List.map_map] at hkind
    obtain ⟨parameter, -, rfl⟩ := List.mem_map.mp hkind
    exact ⟨parameter.name, parameter.typeName, rfl⟩
  · intro tree htree
    obtain ⟨parameter, -, rfl⟩ := List.mem_map.mp htree
    exact shaped_leaf ⟨rfl, rfl, rfl⟩

/-- An optional list of parameters fills a slot for one. -/
theorem shaped_parameters (list : Option ParameterList) :
    let trees := (list.map ParameterList.toTree).toList
    (trees.map Tree.kind = [] ∨ trees.map Tree.kind = [.parameterList]) ∧ AllShaped trees := by
  cases list with
  | none => exact ⟨.inl rfl, trivial⟩
  | some list => exact ⟨.inr rfl, list.shaped, trivial⟩

/-- An optional expression fills a slot for at most one. -/
theorem shaped_optional (value : Option Expr) :
    let trees := (value.map Expr.toTree).toList
    AtMostOne Kind.isExpression (trees.map Tree.kind) ∧ AllShaped trees := by
  cases value with
  | none => exact ⟨.inl rfl, trivial⟩
  | some value => exact ⟨.inr (one_of_kind value.isExpression_kind), value.shaped, trivial⟩

theorem Declaration.shaped {kind : Kind}
    (hkind : kind = .globalDeclaration ∨ kind = .localDeclaration)
    (declared : Declaration) : (declared.toTree kind).Shaped := by
  obtain ⟨hone, hshaped⟩ := shaped_optional declared.initializer
  have htakes : kind.Takes (declared.parts.map Tree.kind) [] [] := by
    rcases hkind with rfl | rfl <;> exact ⟨⟨_, _, _, rfl, hone⟩, rfl, rfl⟩
  exact ⟨htakes, ⟨shaped_leaf ⟨rfl, rfl, rfl⟩, shaped_leaf ⟨rfl, rfl, rfl⟩, hshaped⟩, trivial,
    trivial⟩

theorem isStatement_of_isExpression {kind : Kind} (h : kind.isExpression) : kind.isStatement := by
  cases kind <;> first | rfl | cases h

theorem Block.kinds_toTree (block : Block) : [block.toTree].map Tree.kind = [.block] := by
  cases block
  rfl

theorem Stmt.isStatement_kind (statement : Stmt) : statement.toTree.kind.isStatement := by
  cases statement with
  | expression value => exact isStatement_of_isExpression value.isExpression_kind
  | ifElse location condition thenBlock elseBlock => cases elseBlock <;> rfl
  | block block => cases block; rfl
  | declaration | whileLoop | returnValue | breakLoop => rfl

mutual

theorem Stmt.shaped : (statement : Stmt) → statement.toTree.Shaped
  | .expression value => value.shaped
  | .declaration declared => declared.shaped (.inr rfl)
  | .block block => block.shaped
  | .ifElse _ condition thenBlock none =>
      ⟨⟨one_of_kind condition.isExpression_kind, thenBlock.kinds_toTree, .inl rfl⟩,
        ⟨condition.shaped, trivial⟩, ⟨thenBlock.shaped, trivial⟩, trivial⟩
  | .ifElse _ condition thenBlock (some elseBlock) =>
      ⟨⟨one_of_kind condition.isExpression_kind, thenBlock.kinds_toTree,
          .inr elseBlock.kinds_toTree⟩,
        ⟨condition.shaped, trivial⟩, ⟨thenBlock.shaped, trivial⟩, ⟨elseBlock.shaped, trivial⟩⟩
  | .whileLoop _ condition body =>
      ⟨⟨one_of_kind condition.isExpression_kind, one_of_kind body.isStatement_kind, rfl⟩,
        ⟨condition.shaped, trivial⟩, ⟨body.shaped, trivial⟩, trivial⟩
  | .returnValue _ value =>
      have hvalue := shaped_optional value
      ⟨⟨hvalue.1, rfl, rfl⟩, hvalue.2, trivial, trivial⟩
  | .breakLoop _ => shaped_leaf ⟨rfl, rfl, rfl⟩

theorem Block.shaped : (block : Block) → block.toTree.Shaped
  | ⟨_, statements⟩ =>
      have hstatements := shaped_statementTrees statements
      ⟨⟨hstatements.1, rfl, rfl⟩, hstatements.2, trivial, trivial⟩

theorem shaped_statementTrees : (statements : List Stmt) →
    (∀ kind ∈ (statementTrees statements).map Tree.kind, kind.isStatement) ∧
      AllShaped (statementTrees statements)
  | [] => ⟨List.forall_mem_nil _, trivial⟩
  | statement :: statements => by
      obtain ⟨hkinds, hshaped⟩ := shaped_statementTrees statements
      refine ⟨?_, statement.shaped, hshaped⟩
      rw [statementTrees, List.map_cons, List.forall_mem_cons]
      exact ⟨statement.isStatement_kind, hkinds⟩

end

theorem Item.isItem_kind (item : Item) : item.toTree.kind.isItem := by
  cases item <;> rfl

theorem Item.shaped : (item : Item) → item.toTree.Shaped
  | .function definition =>
      have hparameters := shaped_parameters definition.parameters
      ⟨⟨hparameters.1, definition.body.kinds_toTree, _, rfl⟩, hparameters.2,
        ⟨definition.body.shaped, trivial⟩, ⟨shaped_leaf ⟨rfl, rfl, rfl⟩, trivial⟩⟩
  | .external declared =>
      have hparameters := shaped_parameters declared.parameters
      ⟨⟨hparameters.1, rfl, rfl⟩, hparameters.2, trivial, trivial⟩
  | .global declared => declared.shaped (.inl rfl)

theorem CompileUnit.shaped (unit : CompileUnit) : unit.toTree.Shaped := by
  refine ⟨⟨?_, rfl, rfl⟩, allShaped_of_forall ?_, trivial, trivial⟩
  · intro kind hkind
    rw [List.map_map] at hkind
    obtain ⟨item, -, rfl⟩ := List.mem_map.mp hkind
    exact item.isItem_kind
  · intro tree htree
    obtain ⟨item, -, rfl⟩ := List.mem_map.mp htree
    exact item.shaped

end MiniC
