import MiniC.Proofs.Emission.Tidy

/-!
# Well-formed emissions

Nodes are plain numbers, and the nesting of a leaf is stored twice: in the node and in its
buffer.  An emission is `WellFormed` if every number in a list or as a parent is that of a
node, the file is where it belongs, and leaves agree with their buffers.

`Keeps` is what every operation does but for those that enter or leave a node: old nodes
keep their nesting, and new nodes start at the nesting of the node that hosts them.  It is
proved for the ways in which an emission changes, and put together along the computations of
`Emit` (`KeepsUnder`), where a computation that fails counts with the emission that it
leaves behind.
-/

namespace MiniC

namespace Emission

open Asm (Buffer Instruction)

variable {before middle after : Emission} {id host parent child size : Nat} {node : Node}
  {context : Context}

/-- A node that has its place in an emission of some size: the file is node 0, the numbers
that it knows are those of nodes, and the lines of a leaf are at its nesting. -/
structure Node.Fits (size id : Nat) (node : Node) : Prop where
  file : node.kind = .file ↔ id = fileId
  parent_lt : ∀ parent, node.parent = some parent → parent < size
  listed_lt : ∀ list ∈ node.body.lists, ∀ child ∈ list.2, child < size
  buffer_nesting : ∀ sort buffer, node.body = .leaf sort buffer → buffer.nesting = node.nesting

/-- An emission with a file, in which every node has its place. -/
structure WellFormed (emission : Emission) : Prop where
  file_lt : fileId < emission.nodes.size
  fits : ∀ {id : Nat} {node : Node}, emission.nodes[id]? = some node →
    node.Fits emission.nodes.size id

theorem wellFormed_empty (options : Asm.Options) : (empty options).WellFormed where
  file_lt := Nat.zero_lt_one
  fits {id node} hnode := by
    obtain rfl : id = 0 := Nat.lt_one_iff.mp (lt_size_of_some hnode)
    obtain rfl : ⟨none, 0, 0, .file [] []⟩ = node := Option.some.inj hnode
    refine ⟨by simp [Node.kind, Body.kind, fileId], ?_, ?_, ?_⟩
    · rintro parent ⟨⟩
    · simp [Body.lists]
    · rintro sort buffer ⟨⟩

/-! ## Nodes that are changed -/

namespace Node.Fits

theorem mono {more : Nat} (h : node.Fits size id) (hsize : size ≤ more) : node.Fits more id where
  file := h.file
  parent_lt parent hparent := Nat.lt_of_lt_of_le (h.parent_lt parent hparent) hsize
  listed_lt list hlist child hchild :=
    Nat.lt_of_lt_of_le (h.listed_lt list hlist child hchild) hsize
  buffer_nesting := h.buffer_nesting

theorem setParent (h : node.Fits size id) (hparent : parent < size) :
    Node.Fits size id { node with parent := some parent } where
  file := h.file
  parent_lt other hother := by
    cases hother
    exact hparent
  listed_lt := h.listed_lt
  buffer_nesting := h.buffer_nesting

/-- Lines are added to a leaf at its nesting. -/
theorem mapBuffer {change : Buffer → Buffer} (h : node.Fits size id)
    (hchange : ∀ buffer, (change buffer).nesting = buffer.nesting) :
    (node.mapBuffer change).Fits size id := by
  obtain ⟨parent, base, nesting, body⟩ := node
  -- only a leaf has a buffer, whose nesting the change keeps
  cases body with
  | leaf sort buffer =>
      refine ⟨h.file, h.parent_lt, h.listed_lt, ?_⟩
      rintro _ lines ⟨⟩
      exact (hchange buffer).trans (h.buffer_nesting sort buffer rfl)
  | _ => exact h

theorem setFrame (h : node.Fits size id) (frame : Frame) : (node.setFrame frame).Fits size id := by
  obtain ⟨parent, base, nesting, body⟩ := node
  cases body with
  | function header body old =>
      refine ⟨h.file, h.parent_lt, h.listed_lt, ?_⟩
      rintro sort buffer ⟨⟩
  | _ => exact h

theorem enter (h : node.Fits size id) : node.enter.Fits size id := by
  obtain ⟨parent, base, nesting, body⟩ := node
  cases body with
  | leaf sort buffer =>
      refine ⟨h.file, h.parent_lt, h.listed_lt, ?_⟩
      rintro _ lines ⟨⟩
      exact congrArg (· + 1) (h.buffer_nesting sort buffer rfl)
  | _ =>
      refine ⟨h.file, h.parent_lt, h.listed_lt, ?_⟩
      rintro sort buffer ⟨⟩

/-- A node that is somewhere inside can be left, the buffer of a leaf included. -/
theorem leave {nesting : Nat} (h : node.Fits size id) (hnesting : node.nesting = nesting + 1)
    (name : String) :
    ∃ outer, node.leave name = .ok outer ∧ outer.kind = node.kind ∧ outer.nesting = nesting ∧
      outer.Fits size id := by
  obtain ⟨parent, base, _, body⟩ := node
  cases hnesting
  cases body with
  | leaf sort buffer =>
      obtain ⟨entries, level⟩ := buffer
      obtain rfl : level = nesting + 1 := h.buffer_nesting sort _ rfl
      refine ⟨_, rfl, rfl, rfl, h.file, h.parent_lt, h.listed_lt, ?_⟩
      rintro _ lines ⟨⟩
      rfl
  | _ =>
      refine ⟨_, rfl, rfl, rfl, h.file, h.parent_lt, h.listed_lt, ?_⟩
      rintro sort buffer ⟨⟩

/-- The lists of a body with one more child. -/
theorem listed_append {body : Body} (h : ∀ list ∈ body.lists, ∀ child ∈ list.2, child < size)
    (hchild : child < size) :
    ∀ list ∈ (body.append child context).lists, ∀ other ∈ list.2, other < size := by
  cases context <;> cases body <;>
    first
    | exact h
    | (simp only [Body.append, Body.lists, List.mem_cons, List.not_mem_nil, or_false,
        forall_eq_or_imp, forall_eq, List.mem_append] at h ⊢; grind)

theorem append (h : node.Fits size id) (hchild : child < size) :
    Node.Fits size id { node with body := node.body.append child context } where
  file := by
    rw [← h.file]
    simp [kind]
  parent_lt := h.parent_lt
  listed_lt := listed_append h.listed_lt hchild
  buffer_nesting sort buffer hbody := by
    apply h.buffer_nesting sort buffer
    have hkind : node.body.kind = .leaf sort := by
      rw [← Body.kind_append child context]
      exact congrArg Body.kind hbody
    obtain ⟨_, _, _, body⟩ := node
    -- nothing is appended to a leaf, so that its buffer is as before
    cases body with
    | leaf => cases context <;> exact hbody
    | _ => cases hkind

end Node.Fits

theorem Node.kind_enter (node : Node) : node.enter.kind = node.kind := by
  obtain ⟨parent, base, nesting, body⟩ := node
  cases body <;> rfl

theorem Node.leave_of_zero (h : node.nesting = 0) (name : String) :
    node.leave name = .error (.unbalanced name) := by
  obtain ⟨parent, base, nesting, body⟩ := node
  cases h
  rfl

/-- A node of a well-formed emission may be changed to another that has its place. -/
theorem WellFormed.modifyNode (h : before.WellFormed) {change : Node → Node}
    (hchange : ∀ node, before.nodes[id]? = some node → (change node).Fits before.nodes.size id) :
    (before.modifyNode id change).WellFormed where
  file_lt := by
    rw [size_modifyNode]
    exact h.file_lt
  fits {other node} hnode := by
    rw [size_modifyNode]
    rw [getElem?_modifyNode] at hnode
    split at hnode
    next heq =>
      subst heq
      obtain ⟨old, hold, rfl⟩ := Option.map_eq_some_iff.mp hnode
      exact hchange old hold
    next => exact h.fits hnode

/-! ## What operations keep -/

/-- The body of a new node, for the nesting that it starts at. -/
structure Fresh (body : Nat → Body) : Prop where
  not_file : ∀ nesting, (body nesting).kind ≠ .file
  lists_empty : ∀ nesting, ∀ list ∈ (body nesting).lists, list.2 = []
  buffer_nesting : ∀ nesting sort buffer, body nesting = .leaf sort buffer →
    buffer.nesting = nesting

/-- Old nodes are of the same kind and at the same nesting, and have the same parent unless
they come under the host.  New nodes are under the host and start at its nesting. -/
structure Keeps (host : Nat) (before after : Emission) : Prop where
  size_le : before.nodes.size ≤ after.nodes.size
  old : ∀ {id : Nat} {node : Node}, before.nodes[id]? = some node →
    ∃ other, after.nodes[id]? = some other ∧ other.kind = node.kind ∧
      other.nesting = node.nesting ∧ (other.parent = node.parent ∨ other.parent = some host)
  new : ∀ {id : Nat} {node : Node}, before.nodes.size ≤ id → after.nodes[id]? = some node →
    node.parent = some host ∧ node.nesting = before.nestingAt host
  wellFormed : before.WellFormed → after.WellFormed

namespace Keeps

protected theorem refl (host : Nat) (emission : Emission) : Keeps host emission emission where
  size_le := Nat.le_refl _
  old hnode := ⟨_, hnode, rfl, rfl, .inl rfl⟩
  new hsize hnode := absurd (lt_size_of_some hnode) (Nat.not_lt.mpr hsize)
  wellFormed h := h

theorem nestingAt (h : Keeps host before after) (hid : id < before.nodes.size) :
    after.nestingAt id = before.nestingAt id := by
  obtain ⟨node, hnode⟩ := exists_node_of_lt hid
  obtain ⟨other, hother, -, hnesting, -⟩ := h.old hnode
  rw [nestingAt_of_some hnode, nestingAt_of_some hother, hnesting]

protected theorem trans (h : Keeps host before middle) (hmore : Keeps host middle after)
    (hhost : host < before.nodes.size) : Keeps host before after where
  size_le := Nat.le_trans h.size_le hmore.size_le
  old hnode := by
    obtain ⟨other, hother, hkind, hnesting, hparent⟩ := h.old hnode
    obtain ⟨last, hlast, hlastKind, hlastNesting, hlastParent⟩ := hmore.old hother
    refine ⟨last, hlast, hlastKind.trans hkind, hlastNesting.trans hnesting, ?_⟩
    rcases hlastParent with hsame | hmoved
    · rw [hsame]
      exact hparent
    · exact .inr hmoved
  new {id node} hsize hnode := by
    -- a new node is made by the second part at the nesting of the host, which the first part
    -- keeps, or else it is made by the first part and kept by the second
    by_cases hnew : middle.nodes.size ≤ id
    · rw [← h.nestingAt hhost]
      exact hmore.new hnew hnode
    · obtain ⟨other, hother⟩ := exists_node_of_lt (Nat.lt_of_not_le hnew)
      obtain ⟨hparent, hnesting⟩ := h.new hsize hother
      obtain ⟨last, hlast, -, hlastNesting, hlastParent⟩ := hmore.old hother
      cases hlast.symm.trans hnode
      refine ⟨?_, hlastNesting.trans hnesting⟩
      rcases hlastParent with hsame | hmoved
      · rw [hsame, hparent]
      · exact hmoved
  wellFormed h' := hmore.wellFormed (h.wellFormed h')

/-- Nodes may be the same ones, whatever becomes of the names. -/
theorem of_nodes_eq (host : Nat) (h : after.nodes = before.nodes) : Keeps host before after := by
  obtain ⟨nodes, globals, options⟩ := before
  obtain ⟨_, globals', options'⟩ := after
  cases h
  exact
    { size_le := Nat.le_refl _
      old := fun hnode => ⟨_, hnode, rfl, rfl, .inl rfl⟩
      new := fun hsize hnode => absurd (lt_size_of_some hnode) (Nat.not_lt.mpr hsize)
      wellFormed := fun h => ⟨h.file_lt, h.fits⟩ }

/-- A node without lines and children may be added under the host. -/
theorem push {body : Nat → Body} (hhost : host < before.nodes.size) (hbody : Fresh body) :
    Keeps host before (before.push host body) where
  size_le := by simp
  old hnode := by
    have hold := getElem?_push_old before host body (lt_size_of_some hnode)
    exact ⟨_, hold.trans hnode, rfl, rfl, .inl rfl⟩
  new {id node} hsize hnode := by
    have hlt := lt_size_of_some hnode
    rw [size_push] at hlt
    obtain rfl : id = before.nodes.size := by omega
    rw [getElem?_push_new] at hnode
    cases hnode
    exact ⟨rfl, rfl⟩
  wellFormed h := by
    refine ⟨?_, fun {id node} hnode => ?_⟩
    · rw [size_push]
      exact Nat.succ_pos _
    rw [size_push]
    -- an old node fits in a larger emission, and the new one has neither lines nor children
    by_cases hold : id < before.nodes.size
    · rw [getElem?_push_old _ _ _ hold] at hnode
      exact (h.fits hnode).mono (Nat.le_succ _)
    · have hlt := lt_size_of_some hnode
      rw [size_push] at hlt
      obtain rfl : id = before.nodes.size := by omega
      rw [getElem?_push_new] at hnode
      cases hnode
      have hfileId := h.file_lt
      refine ⟨?_, ?_, ?_, hbody.buffer_nesting _⟩
      · exact iff_of_false (hbody.not_file _) (Nat.ne_of_gt hfileId)
      · rintro parent ⟨⟩
        exact Nat.lt_succ_of_lt hhost
      · intro list hlist child hchild
        rw [hbody.lists_empty _ list hlist] at hchild
        cases hchild

/-- A node may be changed if it stays of its kind, at its nesting, at its parent or under the
host, and in its place. -/
theorem modifyNode {change : Node → Node} (hkind : ∀ node, (change node).kind = node.kind)
    (hnesting : ∀ node, (change node).nesting = node.nesting)
    (hparent : ∀ node, (change node).parent = node.parent ∨ (change node).parent = some host)
    (hfits : ∀ node, node.Fits before.nodes.size id → (change node).Fits before.nodes.size id) :
    Keeps host before (before.modifyNode id change) where
  size_le := by simp
  old {other node} hnode := by
    rw [getElem?_modifyNode, hnode]
    split
    · exact ⟨_, rfl, hkind node, hnesting node, hparent node⟩
    · exact ⟨_, rfl, rfl, rfl, .inl rfl⟩
  new hsize hnode := by
    have hlt := lt_size_of_some hnode
    rw [size_modifyNode] at hlt
    omega
  wellFormed h := h.modifyNode fun node hnode => hfits node (h.fits hnode)

/-- A node that is there may be appended to a list of the host. -/
theorem adopt (hhost : host < before.nodes.size) (hchild : child < before.nodes.size) :
    Keeps host before (before.adopt host child context) := by
  have happend : Keeps host before (before.modifyNode host fun node =>
      { node with body := node.body.append child context }) :=
    modifyNode (fun node => node.body.kind_append child context) (fun _ => rfl)
      (fun _ => .inl rfl) fun _ h => h.append hchild
  refine happend.trans
    (modifyNode (fun _ => rfl) (fun _ => rfl) (fun _ => .inr rfl) fun _ h => ?_) hhost
  exact h.setParent (by rwa [size_modifyNode])

end Keeps

end Emission

/-! ## Computations -/

namespace Emit

open Emission
open Asm (Instruction)

variable {α β : Type} {host : Nat}

/-- The emission in which a computation ends, whether it succeeds or fails. -/
def finish (action : Emit α) (emission : Emission) : Emission :=
  match action emission with
  | .ok _ after => after
  | .error _ after => after

/-- A computation keeps a well-formed emission what it is but for what comes under the
host. -/
def KeepsUnder (host : Nat) (action : Emit α) : Prop :=
  ∀ before : Emission, host < before.nodes.size → Keeps host before (finish action before)

theorem finish_bind (action : Emit α) (next : α → Emit β) (before : Emission) :
    finish (action >>= next) before =
      match action before with
      | .ok value middle => finish (next value) middle
      | .error _ middle => middle := by
  simp only [finish, bind, EStateM.bind]
  cases action before <;> rfl

theorem bind_of_error {action : Emit α} {error : Error} {before after : Emission}
    (h : action before = .error error after) (next : α → Emit β) :
    (action >>= next) before = .error error after := by
  simp only [bind, EStateM.bind, h]

theorem ask_of_error {question : Emission → Except Error α} {error : Error} {before : Emission}
    (h : question before = .error error) : ask question before = .error error before := by
  simp only [ask, h]

theorem require_of_error {question : Emission → Except Error α} {error : Error} {before : Emission}
    (h : question before = .error error) : require question before = .error error before := by
  apply ask_of_error
  rw [h]
  rfl

/-- What is done after a question may rely on its answer. -/
theorem keeps_require {question : Emission → Except Error α} {next : Unit → Emit β}
    {before : Emission}
    (h : ∀ answer, question before = .ok answer → Keeps host before (finish (next ()) before)) :
    Keeps host before (finish (require question >>= next) before) := by
  rw [finish_bind]
  cases hanswer : question before with
  | error error =>
      rw [require_of_error hanswer]
      exact .refl host before
  | ok answer =>
      rw [require_of_ok hanswer]
      exact h answer hanswer

namespace KeepsUnder

theorem pure (value : α) : KeepsUnder host (Pure.pure value : Emit α) :=
  fun before _ => .refl host before

theorem bind {action : Emit α} {next : α → Emit β} (h : KeepsUnder host action)
    (hnext : ∀ value, KeepsUnder host (next value)) : KeepsUnder host (action >>= next) := by
  intro before hhost
  have hfirst := h before hhost
  rw [finish_bind]
  rw [finish] at hfirst
  -- a failure ends here, with what the first part leaves behind
  cases hrun : action before with
  | error error middle =>
      rw [hrun] at hfirst
      exact hfirst
  | ok value middle =>
      rw [hrun] at hfirst
      exact hfirst.trans (hnext value middle (Nat.lt_of_lt_of_le hhost hfirst.size_le)) hhost

theorem throw (error : Error) : KeepsUnder host (MonadExcept.throw error : Emit α) :=
  fun before _ => .refl host before

theorem ask (question : Emission → Except Error α) : KeepsUnder host (Emit.ask question) := by
  intro before hhost
  rw [finish, Emit.ask]
  cases question before <;> exact .refl host before

theorem require (question : Emission → Except Error α) : KeepsUnder host (Emit.require question) :=
  KeepsUnder.ask _

theorem update {change : Emission → Emission}
    (h : ∀ before, host < before.nodes.size → Keeps host before (change before)) :
    KeepsUnder host (Emit.update change) :=
  h

theorem ite {first second : Emit α} (condition : Prop) [Decidable condition]
    (hfirst : KeepsUnder host first) (hsecond : KeepsUnder host second) :
    KeepsUnder host (if condition then first else second) := by
  split
  · exact hfirst
  · exact hsecond

theorem discard {action : Emit α} (h : KeepsUnder host action) :
    KeepsUnder host (Functor.discard action) :=
  h.bind fun _ => KeepsUnder.pure ()

/-! ### Nodes and lines -/

theorem push {body : Nat → Body} (hbody : Fresh body) : KeepsUnder host (Emit.push host body) := by
  intro before hhost
  exact Keeps.push hhost hbody

theorem create (kind : Kind) (host : Nat) : KeepsUnder host (Emit.create kind host) := by
  have hcreate : ∀ {body}, Fresh body → KeepsUnder host (do
      Emit.require (·.node host)
      Emit.push host body) := fun hbody => (KeepsUnder.require _).bind fun _ => push hbody
  cases kind with
  | leaf sort =>
      refine hcreate ⟨by simp [Body.kind], by simp [Body.lists], ?_⟩
      rintro nesting _ buffer ⟨⟩
      rfl
  | conditional | loop | compound =>
      refine hcreate ⟨by simp [Body.kind], by simp [Body.lists], ?_⟩
      rintro nesting sort buffer ⟨⟩
  | file | function => exact KeepsUnder.throw _

theorem createFunction (name : String) : KeepsUnder fileId (Emit.createFunction name) := by
  refine push ⟨by simp [Body.kind], by simp [Body.lists], ?_⟩
  rintro nesting sort buffer ⟨⟩

theorem mapBuffer (id : Nat) {change : Asm.Buffer → Asm.Buffer}
    (hchange : ∀ buffer, (change buffer).nesting = buffer.nesting) :
    KeepsUnder host (Emit.update (·.modifyNode id (·.mapBuffer change))) := by
  refine KeepsUnder.update fun before _ =>
    Keeps.modifyNode ?_ ?_ ?_ fun _ h => h.mapBuffer hchange
  · exact Node.kind_mapBuffer change
  · exact Node.nesting_mapBuffer change
  · exact fun node => .inl (node.parent_mapBuffer change)

theorem add (id : Nat) (instruction : Instruction) : KeepsUnder host (Emit.add id instruction) :=
  (KeepsUnder.require _).bind fun _ => mapBuffer id fun buffer => buffer.nesting_add instruction

theorem addCode (id : Nat) (code : String) : KeepsUnder host (Emit.addCode id code) :=
  (KeepsUnder.require _).bind fun _ =>
    mapBuffer id fun buffer => buffer.nesting_add (.directive code)

/-- Only a node that is there is appended to a list. -/
theorem addChild (context : Context) (child : Nat) :
    KeepsUnder host (Emit.addChild host context child) := by
  intro before hhost
  refine keeps_require fun node hnode => keeps_require fun ids _ => ?_
  exact Keeps.adopt hhost (lt_size_of_some (node_eq_ok.mp hnode))

theorem addLine (context : Context) (instruction : Instruction) :
    KeepsUnder host (Emit.addLine host context instruction) :=
  (create _ host).bind fun leaf => (add leaf instruction).bind fun _ => addChild context leaf

/-- A leaf that is absorbed comes under the other one. -/
theorem absorb (source : Nat) : KeepsUnder host (Emit.absorb host source) := by
  refine (KeepsUnder.ask _).bind fun lines => (KeepsUnder.require _).bind fun _ => ?_
  apply KeepsUnder.update
  intro before hhost
  have hlines : Keeps host before (before.modifyNode host (·.mapBuffer fun buffer =>
      buffer.absorb lines)) :=
    mapBuffer host (fun buffer => buffer.nesting_absorb lines) before hhost
  refine hlines.trans
    (Keeps.modifyNode (fun _ => rfl) (fun _ => rfl) (fun _ => .inr rfl) fun _ h => ?_) hhost
  exact h.setParent (Nat.lt_of_lt_of_le hhost hlines.size_le)

/-! ### Names -/

theorem setGlobals (change : Globals → Globals) :
    KeepsUnder host (Emit.update fun emission =>
      { emission with globals := change emission.globals }) :=
  KeepsUnder.update fun _ _ => .of_nodes_eq host rfl

theorem declareVariable (name : String) (value : Option Int32) :
    KeepsUnder fileId (Emit.declareVariable name value) := by
  refine (KeepsUnder.ask _).bind fun known => KeepsUnder.ite _ (KeepsUnder.pure _) ?_
  exact (setGlobals (·.addVariable name)).bind fun _ =>
    (addLine _ _).bind fun _ => KeepsUnder.pure _

theorem registerFunction (name : String) : KeepsUnder host (Emit.registerFunction name) := by
  refine (KeepsUnder.ask _).bind fun known => KeepsUnder.ite _ (KeepsUnder.pure _) ?_
  exact (setGlobals (·.addFunction name)).bind fun _ => KeepsUnder.pure _

theorem declareFunction (name : String) (arity : Nat) :
    KeepsUnder fileId (Emit.declareFunction name arity) := by
  refine (registerFunction name).bind fun isNew => KeepsUnder.ite _ ?_ (KeepsUnder.pure _)
  exact (addLine _ _).bind fun _ => KeepsUnder.pure _

theorem setFrame (id : Nat) (frame : Frame) :
    KeepsUnder host (Emit.update (·.modifyNode id (·.setFrame frame))) := by
  refine KeepsUnder.update fun before _ =>
    Keeps.modifyNode ?_ ?_ ?_ fun _ h => h.setFrame frame
  · exact Node.kind_setFrame frame
  · exact Node.nesting_setFrame frame
  · exact fun node => .inl (node.parent_setFrame frame)

theorem declareInFrame (add : Frame → Int32 × Bool × Frame) (comment : Int32 → Instruction) :
    KeepsUnder host (Emit.declareInFrame host add comment) := by
  refine (KeepsUnder.ask _).bind fun (offset, isNew, frame) => ?_
  refine KeepsUnder.ite _ ?_ (KeepsUnder.pure _)
  exact (setFrame host frame).bind fun _ => (addLine _ _).bind fun _ => KeepsUnder.pure _

theorem declareParameter (name : String) : KeepsUnder host (Emit.declareParameter host name) := by
  rw [declareParameter_eq]
  exact declareInFrame _ _

theorem declareLocal (name : String) : KeepsUnder host (Emit.declareLocal host name) := by
  rw [declareLocal_eq]
  exact declareInFrame _ _

end KeepsUnder

end Emit

end MiniC
