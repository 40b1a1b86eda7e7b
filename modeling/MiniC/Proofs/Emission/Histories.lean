import MiniC.Proofs.Emission.WellFormed

/-!
# Emissions and their histories

An emission after a list of operations, each with any arguments, where those that fail count
with what they leave behind.  `effect_after` says once what an operation can do: it keeps the
nestings of all nodes, or enters a node, or leaves one.  From that every emission that is
made from an empty one is well-formed, and the nesting of a node is an account of what
was done to it: its nesting when it was created, one more for each time that it was entered
and one less for each time that it was left (`nesting_afterAll`).
-/

namespace MiniC.Emission

open Asm (Instruction)

/-- An operation on an emission. -/
inductive Operation where
  | create (kind : Kind) (parent : Nat)
  | createFunction (name : String)
  | enter (id : Nat)
  | leave (id : Nat)
  | addChild (parent : Nat) (context : Context) (child : Nat)
  | addCode (id : Nat) (code : String)
  | add (id : Nat) (instruction : Instruction)
  | absorb (target source : Nat)
  | declareVariable (name : String) (value : Option Int32)
  | declareFunction (name : String) (arity : Nat)
  | registerFunction (name : String)
  | declareParameter (function : Nat) (name : String)
  | declareLocal (function : Nat) (name : String)
deriving DecidableEq

/-- What an operation does, without its answer. -/
def Operation.run : Operation → Emit Unit
  | create kind parent => discard (Emit.create kind parent)
  | createFunction name => discard (Emit.createFunction name)
  | enter id => Emit.enter id
  | leave id => Emit.leave id
  | addChild parent context child => Emit.addChild parent context child
  | addCode id code => Emit.addCode id code
  | add id instruction => Emit.add id instruction
  | absorb target source => Emit.absorb target source
  | declareVariable name value => discard (Emit.declareVariable name value)
  | declareFunction name arity => discard (Emit.declareFunction name arity)
  | registerFunction name => discard (Emit.registerFunction name)
  | declareParameter function name => discard (Emit.declareParameter function name)
  | declareLocal function name => discard (Emit.declareLocal function name)

/-- Whether an operation succeeds. -/
def Operation.succeeds (operation : Operation) (emission : Emission) : Bool :=
  match operation.run emission with
  | .ok _ _ => true
  | .error _ _ => false

/-- The emission after an operation, whether it succeeds or fails. -/
def after (emission : Emission) (operation : Operation) : Emission := operation.run.finish emission

/-- The emission after operations. -/
def afterAll (emission : Emission) (operations : List Operation) : Emission :=
  operations.foldl after emission

/-- Whether an operation enters a node: 1 or 0. -/
def Operation.enters (id : Nat) (operation : Operation) : Nat :=
  if operation = .enter id then 1 else 0

/-- Whether an operation leaves a node and succeeds: 1 or 0. -/
def Operation.leaves (id : Nat) (emission : Emission) (operation : Operation) : Nat :=
  if operation = .leave id ∧ operation.succeeds emission then 1 else 0

/-- How often a node is entered in the course of operations. -/
def timesEntered (id : Nat) : List Operation → Nat
  | [] => 0
  | operation :: operations => operation.enters id + timesEntered id operations

/-- How often a node is left in the course of operations. -/
def timesLeft (id : Nat) (emission : Emission) : List Operation → Nat
  | [] => 0
  | operation :: operations =>
      operation.leaves id emission + timesLeft id (emission.after operation) operations

/-! ## Operations on what is not there -/

section Missing

variable {emission : Emission} {id : Nat}

theorem finish_ask_of_error {α β : Type} {question : Emission → Except Error α} {error : Error}
    (h : question emission = .error error) (next : α → Emit β) :
    (Emit.ask question >>= next).finish emission = emission := by
  rw [Emit.finish, Emit.bind_of_error (Emit.ask_of_error h)]

theorem finish_require_of_error {α β : Type} {question : Emission → Except Error α} {error : Error}
    (h : question emission = .error error) (next : Unit → Emit β) :
    (Emit.require question >>= next).finish emission = emission := by
  rw [Emit.finish, Emit.bind_of_error (Emit.require_of_error h)]

theorem finish_discard {α : Type} (action : Emit α) (before : Emission) :
    (discard action).finish before = action.finish before := by
  have hdiscard : (discard action : Emit Unit) = action >>= fun _ => pure () := rfl
  rw [hdiscard, Emit.finish_bind, Emit.finish]
  cases action before <;> rfl

variable (h : emission.nodes.size ≤ id)
include h

/-- Every question about a node that is not there gives the same error. -/
theorem bind_node_of_missing {α : Type} (next : Node → Except Error α) :
    (emission.node id >>= next) = .error (Misuse.foreign id).toError := by
  rw [node, Array.getElem?_eq_none h]
  rfl

theorem node_of_missing : emission.node id = .error (Misuse.foreign id).toError := by
  rw [node, Array.getElem?_eq_none h]

theorem bind_frame_of_missing {α : Type} (next : Frame → Except Error α) :
    (emission.frame id >>= next) = .error (Misuse.foreign id).toError := by
  rw [frame, bind_node_of_missing h]
  rfl

theorem finish_create_of_missing (kind : Kind) :
    (Emit.create kind id).finish emission = emission := by
  cases kind with
  | leaf | conditional | loop | compound => exact finish_require_of_error (node_of_missing h) _
  | file | function => rfl

theorem finish_enter_of_missing : (Emit.enter id).finish emission = emission :=
  finish_require_of_error (node_of_missing h) _

theorem finish_leave_of_missing : (Emit.leave id).finish emission = emission :=
  finish_ask_of_error (bind_node_of_missing h _) _

theorem finish_addChild_of_missing (context : Context) (child : Nat) :
    (Emit.addChild id context child).finish emission = emission := by
  rw [Emit.addChild]
  cases hchild : emission.node child with
  | error error => exact finish_require_of_error hchild _
  | ok node =>
      rw [Emit.finish_bind, Emit.require_of_ok hchild]
      exact finish_require_of_error (bind_node_of_missing h _) _

theorem finish_absorb_of_missing (source : Nat) :
    (Emit.absorb id source).finish emission = emission := by
  rw [Emit.absorb]
  cases hlines : emission.leaf source with
  | error error => exact finish_ask_of_error hlines _
  | ok lines =>
      rw [Emit.finish_bind, Emit.ask_of_ok hlines]
      exact finish_require_of_error (bind_node_of_missing h _) _

theorem finish_declareInFrame_of_missing (add : Frame → Int32 × Bool × Frame)
    (comment : Int32 → Asm.Instruction) :
    (Emit.declareInFrame id add comment).finish emission = emission :=
  finish_ask_of_error (bind_frame_of_missing h _) _

end Missing

/-! ## One operation -/

/-- The node that hosts what an operation adds. -/
def Operation.host : Operation → Nat
  | create _ parent | addChild parent _ _ => parent
  | absorb target _ => target
  | declareParameter function _ | declareLocal function _ => function
  | _ => fileId

/-- Whether an operation enters or leaves a node, if it succeeds. -/
def Operation.isLevel : Operation → Bool
  | enter _ | leave _ => true
  | _ => false

variable {emission : Emission} {id : Nat} {node : Node} {operation : Operation}

theorem keepsUnder_run (h : operation.isLevel = false) :
    Emit.KeepsUnder operation.host operation.run := by
  cases operation with
  | create kind parent => exact (Emit.KeepsUnder.create kind parent).discard
  | createFunction name => exact (Emit.KeepsUnder.createFunction name).discard
  | enter | leave => cases h
  | addChild parent context child => exact Emit.KeepsUnder.addChild context child
  | addCode id code => exact Emit.KeepsUnder.addCode id code
  | add id instruction => exact Emit.KeepsUnder.add id instruction
  | absorb target source => exact Emit.KeepsUnder.absorb source
  | declareVariable name value => exact (Emit.KeepsUnder.declareVariable name value).discard
  | declareFunction name arity => exact (Emit.KeepsUnder.declareFunction name arity).discard
  | registerFunction name => exact (Emit.KeepsUnder.registerFunction name).discard
  | declareParameter function name => exact (Emit.KeepsUnder.declareParameter name).discard
  | declareLocal function name => exact (Emit.KeepsUnder.declareLocal name).discard

/-- Without its host an operation does nothing.  The file is always there. -/
theorem after_of_missing (hfile : fileId < emission.nodes.size) (h : operation.isLevel = false)
    (hhost : emission.nodes.size ≤ operation.host) : emission.after operation = emission := by
  cases operation with
  | create kind parent => exact (finish_discard _ _).trans (finish_create_of_missing hhost kind)
  | enter | leave => cases h
  | addChild parent context child => exact finish_addChild_of_missing hhost context child
  | absorb target source => exact finish_absorb_of_missing hhost source
  | declareParameter function name =>
      rw [after, Operation.run, Emit.declareParameter_eq]
      exact (finish_discard _ _).trans (finish_declareInFrame_of_missing hhost _ _)
  | declareLocal function name =>
      rw [after, Operation.run, Emit.declareLocal_eq]
      exact (finish_discard _ _).trans (finish_declareInFrame_of_missing hhost _ _)
  -- the host of all others is the file
  | _ => exact absurd hfile (Nat.not_lt.mpr hhost)

theorem after_enter (hid : id < emission.nodes.size) :
    emission.after (.enter id) = emission.modifyNode id Node.enter := by
  rw [after, Operation.run, Emit.finish, Emit.enter_of_lt hid]

/-- A node that is at nesting zero cannot be left. -/
theorem run_leave_of_zero (hnode : emission.nodes[id]? = some node) (h : node.nesting = 0) :
    Emit.leave id emission = .error (.unbalanced (nameOf node.kind id)) emission := by
  have hquestion : (do
      let node ← emission.node id
      node.leave (nameOf node.kind id)) = .error (.unbalanced (nameOf node.kind id)) := by
    rw [node_of_some hnode]
    exact Node.leave_of_zero h _
  exact Emit.bind_of_error (Emit.ask_of_error hquestion) _

/-- Any other node can. -/
theorem run_leave_of_succ {nesting : Nat} (h : emission.WellFormed)
    (hnode : emission.nodes[id]? = some node) (hnesting : node.nesting = nesting + 1) :
    ∃ outer, outer.kind = node.kind ∧ outer.nesting = nesting ∧
      outer.Fits emission.nodes.size id ∧
      Emit.leave id emission = .ok () (emission.modifyNode id fun _ => outer) := by
  obtain ⟨outer, houter, hkind, hlevel, hfits⟩ :=
    (h.fits hnode).leave hnesting (nameOf node.kind id)
  exact ⟨outer, hkind, hlevel, hfits, Emit.leave_of_some hnode houter⟩

/-- An operation that neither enters a node nor leaves one. -/
def Operation.IsQuiet (operation : Operation) (emission : Emission) : Prop :=
  ∀ id, id < emission.nodes.size →
    operation ≠ .enter id ∧ ¬ (operation = .leave id ∧ operation.succeeds emission)

/-- What an operation can do to an emission. -/
inductive Effect (before : Emission) (operation : Operation) (after : Emission) : Prop where
  /-- It keeps the nodes what they are, and may add some. -/
  | quiet (host : Nat) (hquiet : operation.IsQuiet before) (hhost : host < before.nodes.size)
      (hkeeps : Keeps host before after)
  /-- It enters a node. -/
  | entered (id : Nat) (hoperation : operation = .enter id)
      (hafter : after = before.modifyNode id Node.enter)
  /-- It leaves a node. -/
  | left (id : Nat) (node outer : Node) (hoperation : operation = .leave id)
      (hsucceeds : operation.succeeds before) (hnode : before.nodes[id]? = some node)
      (hkind : outer.kind = node.kind) (hnesting : node.nesting = outer.nesting + 1)
      (hfits : outer.Fits before.nodes.size id)
      (hafter : after = before.modifyNode id fun _ => outer)

/-- Doing nothing keeps everything, say under the file. -/
theorem effect_of_same (hfile : fileId < emission.nodes.size) (hquiet : operation.IsQuiet emission)
    (hafter : emission.after operation = emission) :
    Effect emission operation (emission.after operation) := by
  rw [hafter]
  exact .quiet fileId hquiet hfile (.refl fileId emission)

theorem effect_of_not_level (hfile : fileId < emission.nodes.size)
    (hlevel : operation.isLevel = false) :
    Effect emission operation (emission.after operation) := by
  have hquiet : operation.IsQuiet emission := by
    rintro id -
    constructor
    · rintro rfl
      cases hlevel
    · rintro ⟨rfl, -⟩
      cases hlevel
  by_cases hhost : operation.host < emission.nodes.size
  · exact .quiet _ hquiet hhost (keepsUnder_run hlevel emission hhost)
  · exact effect_of_same hfile hquiet (after_of_missing hfile hlevel (Nat.le_of_not_lt hhost))

theorem effect_enter (hfile : fileId < emission.nodes.size) (id : Nat) :
    Effect emission (.enter id) (emission.after (.enter id)) := by
  by_cases hid : id < emission.nodes.size
  · exact .entered id rfl (after_enter hid)
  · have hquiet : (Operation.enter id).IsQuiet emission := by
      refine fun other hother => ⟨?_, by simp⟩
      rintro ⟨⟩
      exact hid hother
    exact effect_of_same hfile hquiet (finish_enter_of_missing (Nat.le_of_not_lt hid))

theorem effect_leave (h : emission.WellFormed) (id : Nat) :
    Effect emission (.leave id) (emission.after (.leave id)) := by
  by_cases hid : id < emission.nodes.size
  · obtain ⟨node, hnode⟩ := exists_node_of_lt hid
    -- at nesting zero the operation fails, and then it has changed nothing
    cases hnesting : node.nesting with
    | zero =>
        have hrun := run_leave_of_zero hnode hnesting
        have hfails : Operation.succeeds (.leave id) emission = false := by
          rw [Operation.succeeds, Operation.run, hrun]
        refine effect_of_same h.file_lt (fun other _ => ⟨by simp, by simp [hfails]⟩) ?_
        rw [after, Operation.run, Emit.finish, hrun]
    | succ nesting =>
        obtain ⟨outer, hkind, houter, hfits, hrun⟩ := run_leave_of_succ h hnode hnesting
        refine .left id node outer rfl ?_ hnode hkind ?_ hfits ?_
        · rw [Operation.succeeds, Operation.run, hrun]
        · rw [hnesting, houter]
        · rw [after, Operation.run, Emit.finish, hrun]
  · have hquiet : (Operation.leave id).IsQuiet emission := by
      refine fun other hother => ⟨by simp, ?_⟩
      rintro ⟨⟨⟩, -⟩
      exact hid hother
    exact effect_of_same h.file_lt hquiet (finish_leave_of_missing (Nat.le_of_not_lt hid))

/-- Every operation has one of these effects on a well-formed emission. -/
theorem effect_after (h : emission.WellFormed) (operation : Operation) :
    Effect emission operation (emission.after operation) := by
  cases operation with
  | enter id => exact effect_enter h.file_lt id
  | leave id => exact effect_leave h id
  | _ => exact effect_of_not_level h.file_lt rfl

/-! ## Histories -/

theorem WellFormed.after (h : emission.WellFormed) (operation : Operation) :
    (emission.after operation).WellFormed := by
  cases effect_after h operation with
  | quiet host hquiet hhost hkeeps => exact hkeeps.wellFormed h
  | entered entered hoperation hafter =>
      rw [hafter]
      exact h.modifyNode fun node hnode => (h.fits hnode).enter
  | left id node outer hoperation hsucceeds hnode hkind hnesting hfits hafter =>
      rw [hafter]
      exact h.modifyNode fun _ _ => hfits

/-- Every emission that is made from a well-formed one is well-formed. -/
theorem WellFormed.afterAll (h : emission.WellFormed) (operations : List Operation) :
    (emission.afterAll operations).WellFormed := by
  induction operations generalizing emission with
  | nil => exact h
  | cons operation operations ih => exact ih (h.after operation)

/-- A node that is there stays what it is, and is one level deeper if it is entered and one
level further out if it is left. -/
theorem nesting_after (h : emission.WellFormed) (operation : Operation)
    (hnode : emission.nodes[id]? = some node) :
    ∃ other, (emission.after operation).nodes[id]? = some other ∧ other.kind = node.kind ∧
      other.nesting + operation.leaves id emission = node.nesting + operation.enters id := by
  -- only a node that is entered or left gets another nesting, by one
  cases effect_after h operation with
  | quiet host hquiet hhost hkeeps =>
      obtain ⟨henter, hleave⟩ := hquiet id (lt_size_of_some hnode)
      obtain ⟨other, hother, hkind, hsame, -⟩ := hkeeps.old hnode
      refine ⟨other, hother, hkind, ?_⟩
      rw [Operation.enters, if_neg henter, Operation.leaves, if_neg hleave, hsame]
  | entered entered hoperation hafter =>
      subst hoperation
      rw [hafter, getElem?_modifyNode, hnode]
      by_cases hid : entered = id
      · subst hid
        refine ⟨_, if_pos rfl, node.kind_enter, ?_⟩
        simp [Operation.enters, Operation.leaves, node.enter_eq.1]
      · refine ⟨_, if_neg hid, rfl, ?_⟩
        simp [Operation.enters, Operation.leaves, hid]
  | left left old outer hoperation hsucceeds hold hkind hnesting hfits hafter =>
      subst hoperation
      rw [hafter, getElem?_modifyNode, hnode]
      by_cases hid : left = id
      · subst hid
        cases hold.symm.trans hnode
        refine ⟨_, if_pos rfl, hkind, ?_⟩
        simp [Operation.enters, Operation.leaves, hsucceeds, hnesting]
      · refine ⟨_, if_neg hid, rfl, ?_⟩
        simp [Operation.enters, Operation.leaves, hid]

/-- The nesting of a node, over any operations, is what it was, with one more for each time
that the node is entered and one less for each time that it is left. -/
theorem nesting_afterAll (h : emission.WellFormed) (operations : List Operation)
    (hnode : emission.nodes[id]? = some node) :
    ∃ other, (emission.afterAll operations).nodes[id]? = some other ∧ other.kind = node.kind ∧
      other.nesting + timesLeft id emission operations =
        node.nesting + timesEntered id operations := by
  -- the node is general, as the first operation may change it
  induction operations generalizing emission node with
  | nil => exact ⟨node, hnode, rfl, rfl⟩
  | cons operation operations ih =>
      obtain ⟨middle, hmiddle, hmiddleKind, hfirst⟩ := nesting_after h operation hnode
      obtain ⟨other, hother, hkind, hrest⟩ := ih (h.after operation) hmiddle
      refine ⟨other, hother, hkind.trans hmiddleKind, ?_⟩
      rw [timesLeft, timesEntered]
      omega

/-- A node that an operation adds is under a node that was there, and starts at its
nesting. -/
theorem new_after (h : emission.WellFormed) (operation : Operation)
    (hnew : emission.nodes.size ≤ id) (hnode : (emission.after operation).nodes[id]? = some node) :
    ∃ parent, parent < emission.nodes.size ∧ node.parent = some parent ∧
      node.nesting = emission.nestingAt parent := by
  have hlt := lt_size_of_some hnode
  cases effect_after h operation with
  | quiet host hquiet hhost hkeeps => exact ⟨host, hhost, hkeeps.new hnew hnode⟩
  | entered entered hoperation hafter =>
      rw [hafter, size_modifyNode] at hlt
      omega
  | left left old outer hoperation hsucceeds hold hkind hnesting hfits hafter =>
      rw [hafter, size_modifyNode] at hlt
      omega

/-- How a node came to be there in the course of operations on an empty emission: `kind` is
what it was created as and `level` the nesting that it started at, `start` is the first emission
that has it, and `since` are the operations that followed. -/
inductive Origin (options : Asm.Options) (operations : List Operation) (id : Nat) :
    (kind : Kind) → (level : Nat) → (start : Emission) → (since : List Operation) → Prop where
  /-- The file is there from the start. -/
  | file (h : id = fileId) : Origin options operations id .file 0 (empty options) operations
  /-- Any other node was added by an operation, under a node that was there, at whose
  nesting it started. -/
  | added {before since : List Operation} {operation : Operation} {parent : Nat} {node : Node}
      (hoperations : operations = before ++ operation :: since)
      (hbefore : ((empty options).afterAll before).nodes.size ≤ id)
      (hafter : (((empty options).afterAll before).after operation).nodes[id]? = some node)
      (hparent : node.parent = some parent)
      (hlt : parent < ((empty options).afterAll before).nodes.size) :
      Origin options operations id node.kind (((empty options).afterAll before).nestingAt parent)
        (((empty options).afterAll before).after operation) since

theorem afterAll_append (before since : List Operation) :
    emission.afterAll (before ++ since) = (emission.afterAll before).afterAll since :=
  List.foldl_append ..

/-- A node that is there in the end but not at first was added by one of the operations. -/
theorem exists_added (operations : List Operation) (hbefore : emission.nodes.size ≤ id)
    (hafter : id < (emission.afterAll operations).nodes.size) :
    ∃ before operation since, operations = before ++ operation :: since ∧
      (emission.afterAll before).nodes.size ≤ id ∧
      id < ((emission.afterAll before).after operation).nodes.size := by
  induction operations generalizing emission with
  | nil => exact absurd hafter (Nat.not_lt.mpr hbefore)
  | cons operation operations ih =>
      -- either the first operation adds the node, or one of those after it does
      by_cases hnew : id < (emission.after operation).nodes.size
      · exact ⟨[], operation, operations, rfl, hbefore, hnew⟩
      · obtain ⟨before, added, since, rfl, hless, hmore⟩ := ih (Nat.le_of_not_lt hnew) hafter
        exact ⟨operation :: before, added, since, rfl, hless, hmore⟩

/-- Every node has an origin: it is what it was created as, and its nesting is accounted for
from there on. -/
theorem exists_origin (options : Asm.Options) (operations : List Operation)
    (hnode : ((empty options).afterAll operations).nodes[id]? = some node) :
    ∃ level start since, Origin options operations id node.kind level start since ∧
      node.nesting + timesLeft id start since = level + timesEntered id since := by
  have hempty := wellFormed_empty options
  -- the file is there from the start, and every other node was added by an operation
  by_cases hid : id = fileId
  · subst hid
    have hfile : (empty options).nodes[fileId]? = some ⟨none, 0, 0, .file [] []⟩ := rfl
    obtain ⟨other, hother, hkind, hcount⟩ := nesting_afterAll hempty operations hfile
    cases hother.symm.trans hnode
    rw [hkind]
    exact ⟨_, _, _, .file rfl, hcount⟩
  · have hfirst : (empty options).nodes.size ≤ id := Nat.one_le_iff_ne_zero.mpr hid
    obtain ⟨before, operation, since, rfl, hless, hmore⟩ :=
      exists_added operations hfirst (lt_size_of_some hnode)
    have hbefore := hempty.afterAll before
    obtain ⟨added, hadded⟩ := exists_node_of_lt hmore
    obtain ⟨parent, hlt, hparent, hlevel⟩ := new_after hbefore operation hless hadded
    obtain ⟨other, hother, hkind, hcount⟩ :=
      nesting_afterAll (hbefore.after operation) since hadded
    rw [afterAll_append] at hnode
    cases hother.symm.trans hnode
    rw [hlevel] at hcount
    rw [hkind]
    exact ⟨_, _, _, .added rfl hless hadded hparent hlt, hcount⟩

end MiniC.Emission
