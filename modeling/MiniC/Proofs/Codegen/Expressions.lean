import MiniC.Codegen.Generate
import MiniC.Proofs.Emission.Operations
import MiniC.Proofs.Translation.Expression

/-!
# Code generation of expressions

The code of an expression goes to one leaf, into which the leaves of its
operands are absorbed.  `Grows before after level code count` says that an
emission has got `count` leaves more, the first of which holds `code`, and is
the same otherwise; each operation on the first leaf keeps the relation and
adds to the code (`Grows.add`, `Grows.absorb`).

`yields_of_expression` is the result: for the tree of an expression, code
generation always ends, and the leaf that it makes holds the code of the
expression.
-/

namespace MiniC.Codegen

open Ast (Tree)
open Asm (Buffer Instruction Register)
open Emission (Body Id Node)
open Emit

variable {before middle after : Emission} {level count more : Nat}
  {code other : List Instruction}

/-- A leaf that holds code at a level. -/
def LeafHolds (emission : Emission) (id : Nat) (level : Nat) (code : List Instruction) : Prop :=
  ∃ node sort, emission.nodes[id]? = some node ∧
    node.body = .leaf sort (Buffer.holding level code)

theorem LeafHolds.leaf_eq {emission : Emission} {id : Nat} (h : LeafHolds emission id level code) :
    emission.leaf id = .ok (Buffer.holding level code) := by
  obtain ⟨node, sort, hnode, hbody⟩ := h
  exact leaf_of_some hnode hbody

/-- An emission after leaves were added to it, the first of which holds code. -/
structure Grows (before after : Emission) (level : Nat) (code : List Instruction) (count : Nat) :
    Prop where
  options_eq : after.options = before.options
  globals_eq : after.globals = before.globals
  size_eq : after.nodes.size = before.nodes.size + count
  old_eq : ∀ id < before.nodes.size, after.nodes[id]? = before.nodes[id]?
  holds : LeafHolds after before.nodes.size level code
  childless : ∀ id node, before.nodes.size ≤ id → after.nodes[id]? = some node →
    node.body.lists = []

namespace Grows

theorem size_lt (grows : Grows before after level code count) :
    before.nodes.size < after.nodes.size := by
  obtain ⟨node, sort, hnode, -⟩ := grows.holds
  exact Emission.lt_size_of_some hnode

theorem frame_eq (grows : Grows before after level code count) {function : Nat} {frame : Frame}
    (h : before.frame function = .ok frame) : after.frame function = .ok frame := by
  rcases Nat.lt_or_ge function before.nodes.size with hlt | hge
  · rw [← h]
    simp only [Emission.frame, Emission.node, grows.old_eq function hlt]
  · simp [Emission.frame, Emission.node, Array.getElem?_eq_none hge, bind, Except.bind] at h

theorem of_create {parent : Nat} (h : parent < before.nodes.size) (sort : Emission.Leaf) :
    ∃ after, create (.leaf sort) parent before = .ok before.nodes.size after ∧
      Grows before after (before.nestingAt parent) [] 1 := by
  refine ⟨_, create_leaf h sort, rfl, rfl, Emission.size_push .., ?_, ?_, ?_⟩
  · exact fun id hid => Emission.getElem?_push_old _ _ _ hid
  · exact ⟨_, sort, Emission.getElem?_push_new .., rfl⟩
  · intro id node hle hnode
    have hlt := Emission.lt_size_of_some hnode
    rw [Emission.size_push] at hlt
    obtain rfl : id = before.nodes.size := by omega
    rw [Emission.getElem?_push_new] at hnode
    cases hnode
    rfl

/-- Changing the buffer of the first leaf changes the code that is in it. -/
theorem mapBuffer (grows : Grows before after level code count) {change : Buffer → Buffer}
    (h : change (Buffer.holding level code) = Buffer.holding level other) :
    Grows before (after.modifyNode before.nodes.size (·.mapBuffer change)) level other count where
  options_eq := grows.options_eq
  globals_eq := grows.globals_eq
  size_eq := by rw [Emission.size_modifyNode, grows.size_eq]
  old_eq id hid := by
    rw [Emission.getElem?_modifyNode_of_ne _ _ _ (by omega), grows.old_eq id hid]
  holds := by
    obtain ⟨⟨parent, base, nesting, body⟩, sort, hnode, rfl⟩ := grows.holds
    refine ⟨⟨parent, base, nesting, .leaf sort (change (Buffer.holding level code))⟩, sort, ?_,
      congrArg (Body.leaf sort) h⟩
    rw [Emission.getElem?_modifyNode_self, hnode]
    rfl
  childless id node hle hnode := by
    rw [Emission.getElem?_modifyNode] at hnode
    split at hnode
    · obtain ⟨old, hold, rfl⟩ := Option.map_eq_some_iff.mp hnode
      rw [Node.lists_mapBuffer]
      exact grows.childless id old hle hold
    · exact grows.childless id node hle hnode

/-- The parent of a leaf that was added does not matter. -/
theorem setParent (grows : Grows before after level code count) {id : Nat} {parent : Option Nat}
    (h : before.nodes.size < id) :
    Grows before (after.modifyNode id fun node => { node with parent }) level code count where
  options_eq := grows.options_eq
  globals_eq := grows.globals_eq
  size_eq := by rw [Emission.size_modifyNode, grows.size_eq]
  old_eq other hother := by
    rw [Emission.getElem?_modifyNode_of_ne _ _ _ (by omega), grows.old_eq other hother]
  holds := by
    obtain ⟨node, sort, hnode, hbody⟩ := grows.holds
    exact ⟨node, sort, by rw [Emission.getElem?_modifyNode_of_ne _ _ _ (by omega), hnode], hbody⟩
  childless other node hle hnode := by
    rw [Emission.getElem?_modifyNode] at hnode
    split at hnode
    · obtain ⟨old, hold, rfl⟩ := Option.map_eq_some_iff.mp hnode
      exact grows.childless other old hle hold
    · exact grows.childless other node hle hnode

theorem add (grows : Grows before middle level code count) (instruction : Instruction) :
    ∃ after, Emit.add before.nodes.size instruction middle = .ok () after ∧
      Grows before after level (code ++ [instruction]) count := by
  obtain ⟨node, sort, hnode, hbody⟩ := grows.holds
  exact ⟨_, add_of_some hnode hbody instruction,
    grows.mapBuffer (Buffer.add_holding level code instruction)⟩

theorem addAll (grows : Grows before middle level code count) (instructions : List Instruction) :
    ∃ after, Emit.addAll before.nodes.size instructions middle = .ok () after ∧
      Grows before after level (code ++ instructions) count := by
  induction instructions generalizing middle code with
  | nil => exact ⟨middle, rfl, by simpa using grows⟩
  | cons instruction instructions ih =>
      obtain ⟨next, hadd, hnext⟩ := grows.add instruction
      obtain ⟨after, hall, hafter⟩ := ih hnext
      refine ⟨after, ?_, by simpa using hafter⟩
      rw [Emit.addAll, bind_of_ok hadd, hall]

/-- Leaves that are added later only add to the count. -/
theorem trans {inner : Nat} (grows : Grows before middle level code count)
    (hmore : Grows middle after inner other more) :
    Grows before after level code (count + more) where
  options_eq := hmore.options_eq.trans grows.options_eq
  globals_eq := hmore.globals_eq.trans grows.globals_eq
  size_eq := by rw [hmore.size_eq, grows.size_eq, Nat.add_assoc]
  old_eq id hid := by
    have := grows.size_lt
    rw [hmore.old_eq id (by omega), grows.old_eq id hid]
  holds := by
    obtain ⟨node, sort, hnode, hbody⟩ := grows.holds
    exact ⟨node, sort, by rw [hmore.old_eq _ grows.size_lt, hnode], hbody⟩
  childless id node hle hnode := by
    rcases Nat.lt_or_ge id middle.nodes.size with hlt | hge
    · rw [hmore.old_eq id hlt] at hnode
      exact grows.childless id node hle hnode
    · exact hmore.childless id node hge hnode

/-- The leaf of an operand is absorbed into the leaf of the expression. -/
theorem absorb {inner : Nat} (grows : Grows before middle level code count)
    (hmore : Grows middle after inner other more) :
    ∃ last, Emit.absorb before.nodes.size middle.nodes.size after = .ok () last ∧
      Grows before last level (code ++ other) (count + more) := by
  have hall := grows.trans hmore
  obtain ⟨node, sort, hnode, hbody⟩ := hall.holds
  exact ⟨_, absorb_of_some hnode hbody hmore.holds.leaf_eq,
    (hall.mapBuffer (Buffer.absorb_holding level inner code other)).setParent grows.size_lt⟩

end Grows

/-! ## The leaf of an expression -/

/-- In a function, code generation makes the code of an expression out of a
tree. -/
def Yields (tree : Tree) (expr : Expr) : Prop :=
  ∀ (scope : Scope) (emission : Emission) (function : Nat) (frame : Frame),
    scope.function = some function → emission.frame function = .ok frame →
    scope.parent < emission.nodes.size →
    ∃ after, generate scope tree emission = .ok emission.nodes.size after ∧
      Grows emission after (emission.nestingAt scope.parent) (expr.code frame) expr.size

/-- In a function, a computation appends the code of arguments to a leaf. -/
def Pushes (run : Scope → Emission.Id → Emit Unit) (values : List Expr) : Prop :=
  ∀ (scope : Scope) (before middle : Emission) (function : Nat) (frame : Frame) (level : Nat)
    (code : List Instruction) (count : Nat),
    scope.function = some function → before.frame function = .ok frame →
    scope.parent < before.nodes.size → Grows before middle level code count →
    ∃ after, run scope before.nodes.size middle = .ok () after ∧
      Grows before after level (code ++ argumentCode frame values) (count + argumentSize values)

variable {scope : Scope} {function : Nat} {frame : Frame}

theorem ask_resolve {emission : Emission} (hfunction : scope.function = some function)
    (hframe : emission.frame function = .ok frame) (name : String) :
    ask (resolve scope name) emission = .ok (frame.resolve name) emission := by
  apply ask_of_ok
  simp [resolve, hfunction, hframe, bind, Except.bind, pure, Except.pure]

/-- The code of an operand is appended to the leaf of the expression. -/
theorem Grows.operand {tree : Tree} {expr : Expr} (yields : Yields tree expr)
    (hfunction : scope.function = some function) (hframe : before.frame function = .ok frame)
    (hparent : scope.parent < before.nodes.size) (grows : Grows before middle level code count) :
    ∃ operand last, generate scope tree middle = .ok middle.nodes.size operand ∧
      Emit.absorb before.nodes.size middle.nodes.size operand = .ok () last ∧
      Grows before last level (code ++ expr.code frame) (count + expr.size) := by
  obtain ⟨operand, hgenerate, hoperand⟩ :=
    yields scope middle function frame hfunction (grows.frame_eq hframe)
      (Nat.lt_trans hparent grows.size_lt)
  obtain ⟨last, habsorb, hlast⟩ := grows.absorb hoperand
  exact ⟨operand, last, hgenerate, habsorb, hlast⟩

/-! ## The kinds of expressions -/

section Kinds

variable (location : Location) {first second third : List Tree}

theorem yields_number (value : Int32) :
    Yields (.node (.number value) location first second third) (.number location value) := by
  intro scope emission function frame hfunction hframe hparent
  obtain ⟨leaf, hcreate, hleaf⟩ := Grows.of_create hparent .expression
  obtain ⟨after, hadd, hafter⟩ := hleaf.add (.mov Register.eax (.immediate value))
  refine ⟨after, ?_, hafter⟩
  rw [generate, bind_of_ok hcreate, bind_of_ok hadd]
  rfl

theorem yields_identifier (name : String) :
    Yields (.node (.identifier name) location first second third) (.name location name) := by
  intro scope emission function frame hfunction hframe hparent
  obtain ⟨leaf, hcreate, hleaf⟩ := Grows.of_create hparent .expression
  obtain ⟨after, hadd, hafter⟩ := hleaf.add (.mov Register.eax (frame.resolve name).operand)
  refine ⟨after, ?_, hafter⟩
  rw [generate, bind_of_ok (ask_resolve hfunction hframe name), bind_of_ok hcreate,
    bind_of_ok hadd]
  rfl

theorem yields_unary (op : UnaryOp) {tree : Tree} {operand : Expr} (yields : Yields tree operand) :
    Yields (.node (.unary op) location (tree :: first) second third)
      (.unary location op operand) := by
  intro scope emission function frame hfunction hframe hparent
  obtain ⟨leaf, hcreate, hleaf⟩ := Grows.of_create hparent .expression
  obtain ⟨inner, filled, hgenerate, habsorb, hfilled⟩ :=
    hleaf.operand yields hfunction hframe hparent
  obtain ⟨after, hall, hafter⟩ := hfilled.addAll (unarySequence op)
  refine ⟨after, ?_, hafter⟩
  rw [generate, bind_of_ok hcreate, bind_of_ok hgenerate, bind_of_ok habsorb, bind_of_ok hall]
  rfl

theorem yields_binary (op : BinaryOp) {leftTree rightTree : Tree} {left right : Expr}
    (leftYields : Yields leftTree left) (rightYields : Yields rightTree right) :
    Yields (.node (.binary op) location (leftTree :: first) (rightTree :: second) third)
      (.binary location op left right) := by
  intro scope emission function frame hfunction hframe hparent
  obtain ⟨leaf, hcreate, hleaf⟩ := Grows.of_create hparent .expression
  obtain ⟨inner₁, filled₁, hgenerate₁, habsorb₁, hfilled₁⟩ :=
    hleaf.operand leftYields hfunction hframe hparent
  obtain ⟨saved, hpush, hsaved⟩ := hfilled₁.add (.push Register.eax)
  obtain ⟨inner₂, filled₂, hgenerate₂, habsorb₂, hfilled₂⟩ :=
    hsaved.operand rightYields hfunction hframe hparent
  obtain ⟨restored, hpop, hrestored⟩ := hfilled₂.add (.pop .ebx)
  obtain ⟨after, hall, hafter⟩ := hrestored.addAll (binarySequence op)
  refine ⟨after, ?_, hafter⟩
  rw [generate, bind_of_ok hcreate, bind_of_ok hgenerate₁, bind_of_ok habsorb₁,
    bind_of_ok hpush, bind_of_ok hgenerate₂, bind_of_ok habsorb₂, bind_of_ok hpop,
    bind_of_ok hall]
  rfl

theorem yields_assignment (targetLocation : Location) {targetTree tree : Tree} {target : String}
    {value : Expr} (hname : identifierName targetTree = .ok target) (yields : Yields tree value) :
    Yields (.node .assignment location (targetTree :: first) (tree :: second) third)
      (.assign location targetLocation target value) := by
  intro scope emission function frame hfunction hframe hparent
  obtain ⟨leaf, hcreate, hleaf⟩ := Grows.of_create hparent .assignment
  obtain ⟨inner, filled, hgenerate, habsorb, hfilled⟩ :=
    hleaf.operand yields hfunction hframe hparent
  obtain ⟨after, hadd, hafter⟩ := hfilled.add (.mov (frame.resolve target).operand Register.eax)
  refine ⟨after, ?_, hafter⟩
  rw [generate, bind_of_ok (ask_of_ok hname), bind_of_ok hcreate, bind_of_ok hgenerate,
    bind_of_ok habsorb, bind_of_ok (ask_resolve hfunction (hfilled.frame_eq hframe) target),
    bind_of_ok hadd]
  rfl

/-- A call with the arguments of its lists.  Without a list there are none. -/
theorem yields_call (callee : String) {values : List Expr}
    (hvalues : listedExpressions? first = some values)
    (pushes : Pushes (generateLists · · first) values) :
    Yields (.node (.call callee) location first second third)
      (.call location callee (first.head?.map fun list => ⟨list.location, values⟩)) := by
  intro scope emission function frame hfunction hframe hparent
  obtain ⟨leaf, hcreate, hleaf⟩ := Grows.of_create hparent .expression
  obtain ⟨filled, hlists, hfilled⟩ := pushes scope _ _ _ _ _ _ _ hfunction hframe hparent hleaf
  obtain ⟨called, hcall, hcalled⟩ := hfilled.add (.call callee)
  obtain ⟨after, hdrop, hafter⟩ := hcalled.addAll (dropArguments values.length)
  refine ⟨after, ?_, ?_⟩
  · rw [generate, bind_of_ok hcreate, bind_of_ok hlists, bind_of_ok hcall,
      listedCount_of_listedExpressions? hvalues, bind_of_ok hdrop]
    rfl
  · cases first with
    | nil =>
        cases hvalues
        exact hafter
    | cons list lists => exact hafter

end Kinds

theorem identifierName_of_firstName? {location : Location} {name : String} {trees : List Tree}
    (h : firstName? trees = some (location, name)) :
    ∃ tree rest, trees = tree :: rest ∧ identifierName tree = .ok name := by
  unfold firstName? at h
  split at h
  · cases h
    exact ⟨_, _, rfl, rfl⟩
  · cases h

mutual

/-- **Code generation of an expression** ends, and makes one leaf with the code
of the expression. -/
theorem yields_of_expression : (tree : Tree) → {expr : Expr} → tree.expression? = some expr →
    Yields tree expr
  | .node kind location first second third, expr, h => by
      cases kind with
      | number value =>
          simp only [expression?_number, Option.some.injEq] at h
          exact h ▸ yields_number location value
      | identifier name =>
          simp only [expression?_identifier, Option.some.injEq] at h
          exact h ▸ yields_identifier location name
      | unary op =>
          simp only [expression?_unary, Option.bind_eq_some_iff, Option.some.injEq] at h
          obtain ⟨operand, hoperand, rfl⟩ := h
          obtain ⟨tree, rest, rfl, yields⟩ := yields_of_firstExpression first hoperand
          exact yields_unary location op yields
      | binary op =>
          simp only [expression?_binary, Option.bind_eq_some_iff, Option.some.injEq] at h
          obtain ⟨left, hleft, right, hright, rfl⟩ := h
          obtain ⟨leftTree, _, rfl, leftYields⟩ := yields_of_firstExpression first hleft
          obtain ⟨rightTree, _, rfl, rightYields⟩ := yields_of_firstExpression second hright
          exact yields_binary location op leftYields rightYields
      | assignment =>
          simp only [expression?_assignment, Option.bind_eq_some_iff, Option.some.injEq] at h
          obtain ⟨⟨targetLocation, target⟩, htarget, value, hvalue, rfl⟩ := h
          obtain ⟨tree, _, rfl, yields⟩ := yields_of_firstExpression second hvalue
          obtain ⟨targetTree, _, rfl, hname⟩ := identifierName_of_firstName? htarget
          exact yields_assignment location targetLocation hname yields
      | call callee =>
          simp only [expression?_call, Option.bind_eq_some_iff, Option.some.injEq] at h
          obtain ⟨values, hvalues, rfl⟩ := h
          exact yields_call location callee hvalues (generateLists_of_expressions first hvalues)
      -- no other kind of node is an expression
      | _ => cases h

theorem yields_of_firstExpression : (trees : List Tree) → {expr : Expr} →
    firstExpression? trees = some expr →
    ∃ tree rest, trees = tree :: rest ∧ Yields tree expr
  | [], _, h => by simp [firstExpression?] at h
  | tree :: rest, expr, h => ⟨tree, rest, rfl, yields_of_expression tree h⟩

theorem generateLists_of_expressions : (lists : List Tree) → {values : List Expr} →
    listedExpressions? lists = some values →
    Pushes (generateLists · · lists) values
  | [], values, h => by
      intro scope before middle function frame level code count hfunction hframe hparent hgrows
      cases h
      exact ⟨middle, rfl, by simpa [argumentCode, argumentSize] using hgrows⟩
  | .node _ _ trees _ _ :: lists, values, h => by
      intro scope before middle function frame level code count hfunction hframe hparent hgrows
      simp only [listedExpressions?, Option.pure_def, Option.bind_eq_bind,
        Option.bind_eq_some_iff, Option.some.injEq] at h
      obtain ⟨front, hfront, rest, hrest, rfl⟩ := h
      obtain ⟨next, hlists, hnext⟩ :=
        generateLists_of_expressions lists hrest scope _ _ _ _ _ _ _ hfunction hframe hparent
          hgrows
      obtain ⟨after, harguments, hafter⟩ :=
        generateArguments_of_expressions trees hfront scope _ _ _ _ _ _ _ hfunction hframe
          hparent hnext
      refine ⟨after, ?_, ?_⟩
      · show generateLists scope _ (_ :: _) middle = _
        rw [generateLists, bind_of_ok hlists]
        exact harguments
      · simpa [Nat.add_assoc] using hafter

theorem generateArguments_of_expressions : (trees : List Tree) → {values : List Expr} →
    expressions? trees = some values →
    Pushes (generateArguments · · trees) values
  | [], values, h => by
      intro scope before middle function frame level code count hfunction hframe hparent hgrows
      cases h
      exact ⟨middle, rfl, by simpa [argumentCode, argumentSize] using hgrows⟩
  | tree :: trees, values, h => by
      intro scope before middle function frame level code count hfunction hframe hparent hgrows
      simp only [expressions?, Option.pure_def, Option.bind_eq_bind, Option.bind_eq_some_iff,
        Option.some.injEq] at h
      obtain ⟨value, hvalue, rest, hrest, rfl⟩ := h
      obtain ⟨next, harguments, hnext⟩ :=
        generateArguments_of_expressions trees hrest scope _ _ _ _ _ _ _ hfunction hframe
          hparent hgrows
      obtain ⟨inner, filled, hgenerate, habsorb, hfilled⟩ :=
        hnext.operand (yields_of_expression tree hvalue) hfunction hframe hparent
      obtain ⟨after, hpush, hafter⟩ := hfilled.add (.push Register.eax)
      refine ⟨after, ?_, ?_⟩
      · show generateArguments scope _ (_ :: _) middle = _
        rw [generateArguments, bind_of_ok harguments, bind_of_ok hgenerate, bind_of_ok habsorb,
          hpush]
      · simpa [argumentCode, argumentSize, Nat.add_assoc] using hafter

end

end MiniC.Codegen
