import MiniC.Ast.Arena
import MiniC.Program.Tree

/-!
# Trees in arenas

`Arena.Stores arena id tree` says that the nodes below `id` are those of a tree.
Storing a tree makes it so (`inserted_insert`), as long as no node of the tree has
children in a slot that its kind does not have, and reading back what is stored
gives the tree (`treeTo?_of_stores`).  Together, the arena of a tree holds that
tree (`tree?_ofTree`), and the trees of programs are such trees.
-/

namespace MiniC.Ast

mutual

/-- No node of a tree has children in a slot that its kind does not have. -/
def Tree.Fits : Tree → Prop
  | .node kind _ first second third =>
      (kind.slotCount ≤ 0 → first = []) ∧ (kind.slotCount ≤ 1 → second = []) ∧
        (kind.slotCount ≤ 2 → third = []) ∧ AllFit first ∧ AllFit second ∧ AllFit third

/-- Each of several trees fits. -/
def AllFit : List Tree → Prop
  | [] => True
  | tree :: trees => tree.Fits ∧ AllFit trees

end

theorem allFit_iff {trees : List Tree} : AllFit trees ↔ ∀ tree ∈ trees, tree.Fits := by
  induction trees with
  | nil => simp [AllFit]
  | cons tree trees ih => simp [AllFit, ih]

namespace Arena

mutual

/-- The nodes below a number are those of a tree.  Children have greater numbers
than their parents. -/
def Stores (arena : Arena) (id : Nat) : Tree → Prop
  | .node kind location first second third =>
      ∃ node, arena.nodes[id]? = some node ∧ node.kind = kind ∧ node.location = location ∧
        StoresAll arena id (node.childrenIn 0) first ∧
        StoresAll arena id (node.childrenIn 1) second ∧
        StoresAll arena id (node.childrenIn 2) third

/-- The children of a node are trees. -/
def StoresAll (arena : Arena) (parent : Nat) : List Nat → List Tree → Prop
  | [], [] => True
  | id :: ids, tree :: trees =>
    parent < id ∧ Stores arena id tree ∧ StoresAll arena parent ids trees
  | _, _ => False

end

/-! ## Reading back -/

theorem Stores.lt_size {arena : Arena} {id : Nat} {tree : Tree} (h : arena.Stores id tree) :
    id < arena.size := by
  obtain ⟨kind, location, first, second, third⟩ := tree
  obtain ⟨node, hnode, -⟩ := h
  exact (Array.getElem?_eq_some_iff.mp hnode).1

mutual

theorem treeTo?_of_stores {arena : Arena} {id : Nat} : (tree : Tree) → {depth : Nat} →
    arena.Stores id tree → arena.size ≤ id + depth → arena.treeTo? depth id = some tree
  | .node kind location first second third, 0, h, hdepth =>
      absurd h.lt_size (Nat.not_lt.mpr hdepth)
  | .node kind location first second third, depth + 1, h, hdepth => by
      obtain ⟨node, hnode, rfl, rfl, hfirst, hsecond, hthird⟩ := h
      have hbelow : arena.size ≤ id + 1 + depth := by omega
      rw [treeTo?, hnode, Option.map_some]
      dsimp only
      rw [filterMap_treeTo?_of_storesAll first hfirst hbelow,
        filterMap_treeTo?_of_storesAll second hsecond hbelow,
        filterMap_treeTo?_of_storesAll third hthird hbelow]

theorem filterMap_treeTo?_of_storesAll {arena : Arena} {parent depth : Nat} : (trees : List Tree) →
    {ids : List Nat} → arena.StoresAll parent ids trees → arena.size ≤ parent + 1 + depth →
    ids.filterMap (arena.treeTo? depth) = trees
  | [], [], _, _ => rfl
  | [], _ :: _, h, _ => h.elim
  | _ :: _, [], h, _ => h.elim
  | tree :: trees, id :: ids, h, hdepth => by
      obtain ⟨hlater, hstores, hrest⟩ := h
      rw [List.filterMap_cons_some (treeTo?_of_stores tree hstores (by omega)),
        filterMap_treeTo?_of_storesAll trees hrest hdepth]

end

/-! ## Storing -/

/-- From a number on, nodes have the same kinds, locations and slots. -/
def AgreeFrom (first : Nat) (before after : Arena) : Prop :=
  ∀ id node, first ≤ id → before.nodes[id]? = some node →
    ∃ other, after.nodes[id]? = some other ∧ other.kind = node.kind ∧
      other.location = node.location ∧ other.slots = node.slots

theorem AgreeFrom.trans {first : Nat} {before middle after : Arena}
    (h : AgreeFrom first before middle) (hmore : AgreeFrom first middle after) :
    AgreeFrom first before after := by
  intro id node hfirst hnode
  obtain ⟨other, hother, hkind, hlocation, hslots⟩ := h id node hfirst hnode
  obtain ⟨last, hlast, hkind', hlocation', hslots'⟩ := hmore id other hfirst hother
  exact ⟨last, hlast, hkind'.trans hkind, hlocation'.trans hlocation, hslots'.trans hslots⟩

mutual

theorem Stores.congr {first : Nat} {before after : Arena} (agree : AgreeFrom first before after) :
    {id : Nat} → (tree : Tree) → before.Stores id tree → first ≤ id → after.Stores id tree
  | id, .node kind location trees others rest, h, hfirst => by
      obtain ⟨node, hnode, rfl, rfl, htrees, hothers, hrest⟩ := h
      obtain ⟨same, hsame, hkind, hlocation, hslots⟩ := agree id node hfirst hnode
      have hchildren (slot : Nat) : same.childrenIn slot = node.childrenIn slot := by
        rw [Node.childrenIn, Node.childrenIn, hslots]
      refine ⟨same, hsame, hkind, hlocation, ?_, ?_, ?_⟩
      · rw [hchildren]
        exact StoresAll.congr agree trees htrees (Nat.le_succ_of_le hfirst)
      · rw [hchildren]
        exact StoresAll.congr agree others hothers (Nat.le_succ_of_le hfirst)
      · rw [hchildren]
        exact StoresAll.congr agree rest hrest (Nat.le_succ_of_le hfirst)

theorem StoresAll.congr {first parent : Nat} {before after : Arena}
    (agree : AgreeFrom first before after) : {ids : List Nat} → (trees : List Tree) →
    before.StoresAll parent ids trees → first ≤ parent + 1 → after.StoresAll parent ids trees
  | [], [], _, _ => trivial
  | [], _ :: _, h, _ => h.elim
  | _ :: _, [], h, _ => h.elim
  | id :: ids, tree :: trees, h, hfirst => by
      obtain ⟨hlater, hstores, hrest⟩ := h
      exact ⟨hlater, Stores.congr agree tree hstores (by omega),
        StoresAll.congr agree trees hrest hfirst⟩

end

theorem StoresAll.append {arena : Arena} {parent id : Nat} {tree : Tree} :
    {ids : List Nat} → {trees : List Tree} → arena.StoresAll parent ids trees → parent < id →
    arena.Stores id tree → arena.StoresAll parent (ids ++ [id]) (trees ++ [tree])
  | [], [], _, hlater, hstores => ⟨hlater, hstores, trivial⟩
  | [], _ :: _, h, _, _ => h.elim
  | _ :: _, [], h, _, _ => h.elim
  | _ :: _, _ :: _, h, hlater, hstores => ⟨h.1, h.2.1, h.2.2.append hlater hstores⟩

/-- What storing a tree does: the tree is at the next number, and the nodes before it
are as they were. -/
structure Inserted (before : Arena) (id : Nat) (after : Arena) (tree : Tree) : Prop where
  id_eq : id = before.size
  size_lt : before.size < after.size
  old_eq : ∀ old < before.size, after.nodes[old]? = before.nodes[old]?
  stores : after.Stores id tree

/-- A node some of whose slots have their children already. -/
def Holds (arena : Arena) (id : Nat) (kind : Kind) (location : Location)
    (contents : Nat → List Tree) : Prop :=
  ∃ node, arena.nodes[id]? = some node ∧ node.kind = kind ∧ node.location = location ∧
    node.slots.length = kind.slotCount ∧
    ∀ slot, StoresAll arena id (node.childrenIn slot) (contents slot)

theorem Holds.lt_size {arena : Arena} {id : Nat} {kind : Kind} {location : Location}
    {contents : Nat → List Tree} (h : arena.Holds id kind location contents) : id < arena.size := by
  obtain ⟨node, hnode, -⟩ := h
  exact (Array.getElem?_eq_some_iff.mp hnode).1

theorem agreeFrom_of_old_eq {before after : Arena}
    (h : ∀ old < before.size, after.nodes[old]? = before.nodes[old]?) (first : Nat) :
    AgreeFrom first before after := by
  intro id node _ hnode
  exact ⟨node, (h id (Array.getElem?_eq_some_iff.mp hnode).1).trans hnode, rfl, rfl, rfl⟩

theorem childrenIn_adopt (node : Node) (slot child other : Nat) (hslot : slot < node.slots.length) :
    (node.adopt slot child).childrenIn other =
      if other = slot then node.childrenIn slot ++ [child] else node.childrenIn other := by
  rw [Node.childrenIn, Node.adopt, List.getD_eq_getElem?_getD, List.getElem?_modify]
  split
  next heq =>
    subst heq
    rw [if_pos rfl, Node.childrenIn, List.getD_eq_getElem?_getD, List.getElem?_eq_getElem hslot]
    rfl
  next hne =>
    rw [if_neg (Ne.symm hne), Node.childrenIn, List.getD_eq_getElem?_getD]
    simp

section Link

variable (arena : Arena) {parent child : Nat} (slot : Nat)

theorem nodes_link_of_ne {id : Nat} (hparent : id ≠ parent) (hchild : id ≠ child) :
    (arena.link parent child slot).nodes[id]? = arena.nodes[id]? := by
  rw [link, Array.getElem?_modify, if_neg (Ne.symm hparent), Array.getElem?_modify,
    if_neg (Ne.symm hchild)]

theorem nodes_link_parent (hlater : parent < child) :
    (arena.link parent child slot).nodes[parent]? =
      arena.nodes[parent]?.map (·.adopt slot child) := by
  rw [link, Array.getElem?_modify, if_pos rfl, Array.getElem?_modify,
    if_neg (Nat.ne_of_gt hlater)]

/-- What is below the parent stays as it is. -/
theorem agreeFrom_link : AgreeFrom (parent + 1) arena (arena.link parent child slot) := by
  intro id node hfirst hnode
  rw [link, Array.getElem?_modify, if_neg (by omega), Array.getElem?_modify, hnode]
  split
  · exact ⟨_, rfl, rfl, rfl, rfl⟩
  · exact ⟨_, rfl, rfl, rfl, rfl⟩

end Link

@[simp] theorem size_link (arena : Arena) (parent child slot : Nat) :
    (arena.link parent child slot).size = arena.size := by
  simp [link, size]

/-- The children in each slot, after more of them in one slot. -/
def filled (contents : Nat → List Tree) (slot : Nat) (trees : List Tree) : Nat → List Tree :=
  fun other => if other = slot then contents slot ++ trees else contents other

@[simp] theorem filled_nil (contents : Nat → List Tree) (slot : Nat) :
    filled contents slot [] = contents := by
  funext other
  rw [filled]
  split
  next heq => rw [heq, List.append_nil]
  next => rfl

@[simp] theorem filled_filled (contents : Nat → List Tree) (slot : Nat) (trees more : List Tree) :
    filled (filled contents slot trees) slot more = filled contents slot (trees ++ more) := by
  funext other
  simp only [filled, if_true, List.append_assoc]
  split <;> rfl

/-- A tree that has been stored becomes the last child in a slot. -/
theorem Holds.link {before after : Arena} {parent child slot : Nat} {kind : Kind}
    {location : Location} {contents : Nat → List Tree} {tree : Tree}
    (h : before.Holds parent kind location contents) (hslot : slot < kind.slotCount)
    (inserted : Inserted before child after tree) :
    (after.link parent child slot).Holds parent kind location (filled contents slot [tree]) := by
  have hlater : parent < child := inserted.id_eq ▸ h.lt_size
  have hold := inserted.old_eq parent h.lt_size
  obtain ⟨node, hnode, hkind, hlocation, hlength, hcontents⟩ := h
  -- what the slots held before lies after the parent, where nothing has changed
  have agree : AgreeFrom (parent + 1) before (after.link parent child slot) :=
    (agreeFrom_of_old_eq inserted.old_eq _).trans (agreeFrom_link after slot)
  have hkept (other : Nat) := StoresAll.congr agree (contents other) (hcontents other)
    (Nat.le_refl _)
  refine ⟨node.adopt slot child, ?_, hkind, hlocation, ?_, fun other => ?_⟩
  · rw [nodes_link_parent after slot hlater, hold, hnode]
    rfl
  · rw [← hlength]
    exact List.length_modify _ _ _
  · rw [childrenIn_adopt node slot child other (by omega), filled]
    split
    next =>
      exact (hkept slot).append hlater
        (Stores.congr (agreeFrom_link after slot) tree inserted.stores hlater)
    next => exact hkept other

theorem create_holds (arena : Arena) (kind : Kind) (location : Location) :
    (arena.create kind location).1 = arena.size ∧
      (arena.create kind location).2.size = arena.size + 1 ∧
      (∀ old < arena.size, (arena.create kind location).2.nodes[old]? = arena.nodes[old]?) ∧
      (arena.create kind location).2.Holds arena.size kind location fun _ => [] := by
  refine ⟨rfl, by simp [create, size], fun old hold => ?_, ?_⟩
  · simp only [create]
    rw [Array.getElem?_push, if_neg (Nat.ne_of_lt (show old < arena.nodes.size from hold))]
  · refine ⟨⟨arena.serials.following, kind, location, none, List.replicate kind.slotCount []⟩,
      ?_, rfl, rfl, by simp, fun slot => ?_⟩
    · simp [create, size, Serials.next]
    · have hempty : (List.replicate kind.slotCount ([] : List Nat)).getD slot [] = [] := by
        rw [List.getD_eq_getElem?_getD, List.getElem?_replicate]
        split <;> rfl
      rw [Node.childrenIn, hempty]
      trivial

mutual

theorem inserted_insert (arena : Arena) : (tree : Tree) → tree.Fits →
    Inserted arena (arena.insert tree).1 (arena.insert tree).2 tree
  | .node kind location first second third, hfits => by
      obtain ⟨hfirst, hsecond, hthird, fitsFirst, fitsSecond, fitsThird⟩ := hfits
      obtain ⟨hid, hsize, hold, hcreated⟩ := create_holds arena kind location
      rw [insert]
      dsimp only
      rw [hid]
      obtain ⟨hone, hsizeOne, holdOne⟩ := hcreated.insertAll 0 first fitsFirst hfirst
      obtain ⟨htwo, hsizeTwo, holdTwo⟩ := hone.insertAll 1 second fitsSecond hsecond
      obtain ⟨⟨node, hnode, hkind, hlocation, -, hcontents⟩, hsizeThree, holdThree⟩ :=
        htwo.insertAll 2 third fitsThird hthird
      refine ⟨rfl, by omega, fun old hlt => ?_, node, hnode, hkind, hlocation, hcontents 0,
        hcontents 1, hcontents 2⟩
      have hne := Nat.ne_of_lt hlt
      rw [holdThree old (by omega) hne, holdTwo old (by omega) hne, holdOne old (by omega) hne,
        hold old hlt]

theorem Holds.insertAll {arena : Arena} {parent : Nat} {kind : Kind} {location : Location}
    {contents : Nat → List Tree} (h : arena.Holds parent kind location contents) (slot : Nat) :
    (trees : List Tree) → AllFit trees → (kind.slotCount ≤ slot → trees = []) →
    (arena.insertAll parent slot trees).Holds parent kind location (filled contents slot trees) ∧
      arena.size ≤ (arena.insertAll parent slot trees).size ∧
      ∀ old < arena.size, old ≠ parent →
        (arena.insertAll parent slot trees).nodes[old]? = arena.nodes[old]?
  | [], _, _ => by
      rw [Arena.insertAll, filled_nil]
      exact ⟨h, Nat.le_refl _, fun _ _ _ => rfl⟩
  | tree :: trees, hfit, hslot => by
      have hinserted := inserted_insert arena tree hfit.1
      -- the kind has the slot, since there is a tree for it
      have hlt : slot < kind.slotCount :=
        Nat.lt_of_not_le fun hle => List.cons_ne_nil _ _ (hslot hle)
      obtain ⟨hholds, hsize, hold⟩ := (h.link hlt hinserted).insertAll slot trees hfit.2
        fun hle => absurd hlt (Nat.not_lt.mpr hle)
      rw [size_link] at hsize hold
      rw [filled_filled] at hholds
      rw [Arena.insertAll]
      refine ⟨hholds, Nat.le_trans (Nat.le_of_lt hinserted.size_lt) hsize, ?_⟩
      intro old holdLt hne
      rw [hold old (Nat.lt_trans holdLt hinserted.size_lt) hne,
        nodes_link_of_ne _ slot hne (hinserted.id_eq ▸ Nat.ne_of_lt holdLt),
        hinserted.old_eq old holdLt]

end

/-- The arena of a tree holds the tree. -/
theorem tree?_ofTree (tree : Tree) (h : tree.Fits) :
    (ofTree tree).root >>= (ofTree tree).tree? = some tree := by
  obtain ⟨hid, hsize, -, hstores⟩ := inserted_insert empty tree h
  have agree : AgreeFrom 0 (empty.insert tree).2 (ofTree tree) :=
    fun id node _ hnode => ⟨node, hnode, rfl, rfl, rfl⟩
  have hrooted := Stores.congr agree tree hstores (Nat.zero_le _)
  show (ofTree tree).tree? (empty.insert tree).1 = some tree
  rw [tree?]
  exact treeTo?_of_stores tree hrooted (by omega)

end Arena

end MiniC.Ast

namespace MiniC

open Ast (AllFit Kind Tree)

/-! ## The trees of programs -/

theorem fits_leaf (kind : Kind) (location : Location) : (Tree.leaf kind location).Fits := by
  simp [Tree.leaf, Tree.Fits, AllFit]

mutual

theorem Expr.fits : (expr : Expr) → expr.toTree.Fits
  | .number _ _ | .name _ _ => fits_leaf _ _
  | .binary _ _ left right => by
      simp [Expr.toTree, Tree.Fits, AllFit, Kind.slotCount, left.fits, right.fits]
  | .unary _ _ operand => by
      simp [Expr.toTree, Tree.Fits, AllFit, Kind.slotCount, operand.fits]
  | .assign _ _ _ value => by
      simp [Expr.toTree, Tree.Fits, AllFit, Kind.slotCount, fits_leaf, value.fits]
  | .call _ _ none => fits_leaf _ _
  | .call _ _ (some list) => by
      simp [Expr.toTree, Tree.Fits, AllFit, Kind.slotCount, list.fits]

theorem ArgumentList.fits : (list : ArgumentList) → list.toTree.Fits
  | ⟨_, values⟩ => by
      simp [ArgumentList.toTree, Tree.Fits, AllFit, Kind.slotCount, allFit_expressionTrees values]

theorem allFit_expressionTrees : (values : List Expr) → AllFit (expressionTrees values)
  | [] => trivial
  | value :: values => ⟨value.fits, allFit_expressionTrees values⟩

end

theorem ParameterList.fits (list : ParameterList) : list.toTree.Fits := by
  have hall : AllFit (list.parameters.map Parameter.toTree) :=
    Ast.allFit_iff.mpr fun tree htree => by
      obtain ⟨parameter, -, rfl⟩ := List.mem_map.mp htree
      exact fits_leaf _ _
  simp [ParameterList.toTree, Tree.Fits, AllFit, Kind.slotCount, hall]

theorem allFit_parameters (list : Option ParameterList) :
    AllFit (list.map ParameterList.toTree).toList := by
  cases list with
  | none => trivial
  | some list => exact ⟨list.fits, trivial⟩

theorem Declaration.fits {kind : Kind} (hkind : kind.slotCount = 1) (declared : Declaration) :
    (declared.toTree kind).Fits := by
  cases hinitial : declared.initializer <;>
    simp [Declaration.toTree, Declaration.parts, hinitial, Tree.Fits, AllFit, hkind, fits_leaf,
      Expr.fits]

mutual

theorem Stmt.fits : (statement : Stmt) → statement.toTree.Fits
  | .expression value => value.fits
  | .declaration declared => declared.fits rfl
  | .block block => block.fits
  | .ifElse _ condition thenBlock none => by
      simp [Stmt.toTree, Tree.Fits, AllFit, Kind.slotCount, condition.fits, thenBlock.fits]
  | .ifElse _ condition thenBlock (some elseBlock) => by
      simp [Stmt.toTree, Tree.Fits, AllFit, Kind.slotCount, condition.fits, thenBlock.fits,
        elseBlock.fits]
  | .whileLoop _ condition body => by
      simp [Stmt.toTree, Tree.Fits, AllFit, Kind.slotCount, condition.fits, body.fits]
  | .returnValue _ none => by simp [Stmt.toTree, Tree.Fits, AllFit, Kind.slotCount]
  | .returnValue _ (some value) => by
      simp [Stmt.toTree, Tree.Fits, AllFit, Kind.slotCount, value.fits]
  | .breakLoop _ => fits_leaf _ _

theorem Block.fits : (block : Block) → block.toTree.Fits
  | ⟨_, statements⟩ => by
      simp [Block.toTree, Tree.Fits, AllFit, Kind.slotCount, allFit_statementTrees statements]

theorem allFit_statementTrees : (statements : List Stmt) → AllFit (statementTrees statements)
  | [] => trivial
  | statement :: statements => ⟨statement.fits, allFit_statementTrees statements⟩

end

theorem Item.fits : (item : Item) → item.toTree.Fits
  | .function definition => by
      simp [Item.toTree, FunctionDefinition.toTree, Tree.Fits, AllFit, Kind.slotCount,
        allFit_parameters, definition.body.fits, fits_leaf]
  | .external declared => by
      simp [Item.toTree, FunctionDeclaration.toTree, Tree.Fits, AllFit, Kind.slotCount,
        allFit_parameters]
  | .global declared => declared.fits rfl

theorem CompileUnit.fits (unit : CompileUnit) : unit.toTree.Fits := by
  have hall : AllFit (unit.items.map Item.toTree) :=
    Ast.allFit_iff.mpr fun tree htree => by
      obtain ⟨item, -, rfl⟩ := List.mem_map.mp htree
      exact item.fits
  simp [CompileUnit.toTree, Tree.Fits, AllFit, Kind.slotCount, hall]

end MiniC
