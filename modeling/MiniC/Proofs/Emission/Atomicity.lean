import MiniC.Proofs.Codegen.Functions
import MiniC.Proofs.Emission.Histories
import MiniC.Proofs.Emission.StrictTree

/-!
# Operations that fail

A computation on an emission carries the emission along when it fails, with what it has
changed so far.  It is `Atomic` if nothing has been changed by then.  Most operations ask
first and change the emission afterwards, when nothing can fail any more.

Some change it and go on with steps that may fail.  A variable is registered, and then a
leaf is created, filled and appended to the file; a parameter is given a slot before its
comment is made.  These steps do not fail because the file and the functions have the
lists that they need (`addLine_of_kind`).  Leaving a leaf lowers the nesting of the node
and then that of its buffer, and absorbing one adds its lines and then looks for it again:
`leaveStepwise` and `absorbStepwise` do that one step after the other, and have the outcome
of `leave` and `absorb` where leaves agree with their buffers (`leaveStepwise_eq`,
`absorbStepwise_eq`).
-/

namespace MiniC

namespace Emission

variable {emission : Emission} {id : Nat} {node : Node}

/-- A node that is changed twice is changed once, by both changes. -/
theorem modifyNode_modifyNode (emission : Emission) (id : Nat) (first second : Node → Node) :
    (emission.modifyNode id first).modifyNode id second =
      emission.modifyNode id (second ∘ first) := by
  simp only [modifyNode, Emission.mk.injEq, and_true]
  apply Array.ext_getElem?
  intro other
  rw [Array.getElem?_modify, Array.getElem?_modify, Array.getElem?_modify]
  split
  · rw [Option.map_map]
  · rfl

/-- Only what a change makes of the node in question counts. -/
theorem modifyNode_congr (hnode : emission.nodes[id]? = some node) {first second : Node → Node}
    (h : first node = second node) :
    emission.modifyNode id first = emission.modifyNode id second := by
  simp only [modifyNode, Emission.mk.injEq, and_true]
  apply Array.ext_getElem?
  intro other
  rw [Array.getElem?_modify, Array.getElem?_modify]
  split
  next heq =>
    subst heq
    rw [hnode, Option.map_some, Option.map_some, h]
  next => rfl

/-- A node has a list for each context of its kind. -/
theorem exists_children?_of_kind {context : Context} (h : context ∈ node.kind.contexts) :
    ∃ ids, node.body.children? context = some ids := by
  obtain ⟨parent, base, nesting, body⟩ := node
  cases body <;> cases context <;>
    first
    | exact ⟨_, rfl⟩
    | exact absurd h (by simp [Node.kind, Body.kind, Kind.contexts])

/-- Only functions have frames. -/
theorem exists_function_of_frame {frame : Frame} (h : emission.frame id = .ok frame) :
    ∃ node, emission.nodes[id]? = some node ∧ node.kind = .function := by
  rw [Emission.frame] at h
  cases hnode : emission.nodes[id]? with
  | none =>
      rw [Emission.node, hnode] at h
      cases h
  | some node =>
      rw [node_of_some hnode] at h
      obtain ⟨parent, base, nesting, body⟩ := node
      cases body with
      | function => exact ⟨_, rfl, rfl⟩
      | _ => cases h

end Emission

namespace Emit

open Emission
open Asm (Instruction)

variable {α β : Type} {emission : Emission}

/-! ## Atomic computations -/

/-- A computation succeeds on an emission, or it fails and leaves the emission as it was. -/
def Atomic (action : Emit α) (emission : Emission) : Prop :=
  (∃ value after, action emission = .ok value after) ∨
    ∃ error, action emission = .error error emission

namespace Atomic

theorem pure (value : α) (emission : Emission) : Atomic (Pure.pure value : Emit α) emission :=
  .inl ⟨value, emission, rfl⟩

theorem throw (error : Error) (emission : Emission) :
    Atomic (MonadExcept.throw error : Emit α) emission :=
  .inr ⟨error, rfl⟩

/-- A question changes nothing. -/
theorem ask_bind {question : Emission → Except Error α} {next : α → Emit β}
    (h : ∀ answer, question emission = .ok answer → Atomic (next answer) emission) :
    Atomic (ask question >>= next) emission := by
  cases hanswer : question emission with
  | error error => exact .inr ⟨error, bind_of_error (ask_of_error hanswer) next⟩
  | ok answer =>
      rw [Atomic, bind_of_ok (ask_of_ok hanswer)]
      exact h answer hanswer

theorem require_bind {question : Emission → Except Error α} {next : Unit → Emit β}
    (h : ∀ answer, question emission = .ok answer → Atomic (next ()) emission) :
    Atomic (require question >>= next) emission := by
  cases hanswer : question emission with
  | error error => exact .inr ⟨error, bind_of_error (require_of_error hanswer) next⟩
  | ok answer =>
      rw [Atomic, bind_of_ok (require_of_ok hanswer)]
      exact h answer hanswer

/-- What follows a step that has changed something must not fail. -/
theorem bind_of_ok {action : Emit α} {next : α → Emit β} {value : α} {result : β}
    {middle after : Emission} (h : action emission = .ok value middle)
    (hnext : next value middle = .ok result after) : Atomic (action >>= next) emission := by
  refine .inl ⟨result, after, ?_⟩
  rw [Emit.bind_of_ok h, hnext]

theorem discard {action : Emit α} (h : Atomic action emission) :
    Atomic (Functor.discard action) emission := by
  rcases h with ⟨value, after, hok⟩ | ⟨error, herror⟩
  · exact .inl ⟨(), after, discard_of_ok hok⟩
  · exact .inr ⟨error, bind_of_error herror _⟩

end Atomic

/-! ## Operations that ask first -/

theorem atomic_create (kind : Kind) (parent : Nat) (emission : Emission) :
    Atomic (create kind parent) emission := by
  cases kind with
  | leaf | conditional | loop | compound =>
      exact Atomic.require_bind fun _ _ => .inl ⟨_, _, rfl⟩
  | file | function => exact Atomic.throw _ emission

theorem atomic_enter (id : Nat) (emission : Emission) : Atomic (enter id) emission :=
  Atomic.require_bind fun _ _ => .inl ⟨(), _, rfl⟩

theorem atomic_leave (id : Nat) (emission : Emission) : Atomic (leave id) emission :=
  Atomic.ask_bind fun _ _ => .inl ⟨(), _, rfl⟩

theorem atomic_addChild (parent : Nat) (context : Context) (child : Nat) (emission : Emission) :
    Atomic (addChild parent context child) emission :=
  Atomic.require_bind fun _ _ => Atomic.require_bind fun _ _ => .inl ⟨(), _, rfl⟩

theorem atomic_addCode (id : Nat) (code : String) (emission : Emission) :
    Atomic (addCode id code) emission :=
  Atomic.require_bind fun _ _ => .inl ⟨(), _, rfl⟩

theorem atomic_add (id : Nat) (instruction : Instruction) (emission : Emission) :
    Atomic (add id instruction) emission :=
  Atomic.require_bind fun _ _ => .inl ⟨(), _, rfl⟩

theorem atomic_absorb (target source : Nat) (emission : Emission) :
    Atomic (absorb target source) emission :=
  Atomic.ask_bind fun _ _ => Atomic.require_bind fun _ _ => .inl ⟨(), _, rfl⟩

theorem atomic_registerFunction (name : String) (emission : Emission) :
    Atomic (registerFunction name) emission := by
  refine Atomic.ask_bind fun known _ => ?_
  cases known with
  | true => exact Atomic.pure _ emission
  | false => exact .inl ⟨true, _, rfl⟩

/-! ## Operations that change something first -/

/-- A line of its own can be added to any list that a node has. -/
theorem addLine_of_kind {parent : Nat} {node : Node} {context : Context}
    (hnode : emission.nodes[parent]? = some node) (hcontext : context ∈ node.kind.contexts)
    (instruction : Instruction) :
    ∃ after, addLine parent context instruction emission = .ok () after := by
  obtain ⟨ids, hids⟩ := exists_children?_of_kind hcontext
  obtain ⟨after, hline, -⟩ := addLine_spec hnode hids instruction
  exact ⟨after, hline⟩

/-- The file has a data section, whatever names it has declared. -/
theorem addLine_data (h : emission.WellFormed) (globals : Globals) (instruction : Instruction) :
    ∃ after, addLine fileId .fileData instruction { emission with globals } = .ok () after := by
  obtain ⟨node, hnode⟩ := exists_node_of_lt h.file_lt
  have hkind : node.kind = .file := (h.fits hnode).file.mpr rfl
  have hsame : { emission with globals }.nodes[fileId]? = some node := hnode
  exact addLine_of_kind hsame (by simp [hkind, Kind.contexts]) instruction

theorem atomic_declareVariable (h : emission.WellFormed) (name : String) (value : Option Int32) :
    Atomic (declareVariable name value) emission := by
  refine Atomic.ask_bind fun known _ => ?_
  cases known with
  | true => exact Atomic.pure _ emission
  | false =>
      -- the name is entered before its line is written, which must not fail then
      obtain ⟨after, hline⟩ :=
        addLine_data h (emission.globals.addVariable name) (.dword name value)
      have hupdate : update (fun emission =>
          { emission with globals := emission.globals.addVariable name }) emission =
            .ok () { emission with globals := emission.globals.addVariable name } := rfl
      exact Atomic.bind_of_ok hupdate (bind_of_ok hline _)

theorem atomic_declareFunction (h : emission.WellFormed) (name : String) (arity : Nat) :
    Atomic (declareFunction name arity) emission := by
  have hregister := Codegen.registerFunction_spec name emission
  cases hknown : emission.globals.hasFunction name with
  | true =>
      rw [hknown] at hregister
      exact Atomic.bind_of_ok hregister rfl
  | false =>
      rw [hknown] at hregister
      obtain ⟨after, hline⟩ :=
        addLine_data h (emission.globals.addFunction name) (.proto name arity)
      exact Atomic.bind_of_ok hregister (bind_of_ok hline _)

/-- The frame of a function may be replaced.  Its header is still there then. -/
theorem addLine_header {function : Nat} {frame : Frame} (h : emission.frame function = .ok frame)
    (other : Frame) (instruction : Instruction) :
    ∃ after, addLine function .functionHeader instruction
      (emission.modifyNode function (·.setFrame other)) = .ok () after := by
  obtain ⟨node, hnode, hkind⟩ := exists_function_of_frame h
  have hchanged : (emission.modifyNode function (·.setFrame other)).nodes[function]? =
      some (node.setFrame other) := by
    rw [getElem?_modifyNode_self, hnode, Option.map_some]
  refine addLine_of_kind hchanged ?_ instruction
  rw [Node.kind_setFrame, hkind]
  exact List.mem_cons_self

/-- A name is declared in the frame of a function, and a new one gets a comment in its
header. -/
theorem atomic_declareInFrame (function : Nat) (add : Frame → Int32 × Bool × Frame)
    (comment : Int32 → Instruction) (emission : Emission) :
    Atomic (declareInFrame function add comment) emission := by
  refine Atomic.ask_bind fun (offset, isNew, frame) hask => ?_
  cases isNew with
  | false => exact Atomic.pure _ emission
  | true =>
      cases hframe : emission.frame function with
      | error error =>
          rw [hframe] at hask
          cases hask
      | ok old =>
          obtain ⟨after, hline⟩ := addLine_header hframe frame (comment offset)
          have hupdate : update (·.modifyNode function (·.setFrame frame)) emission =
              .ok () (emission.modifyNode function (·.setFrame frame)) := rfl
          exact Atomic.bind_of_ok hupdate (bind_of_ok hline _)

theorem atomic_declareParameter (function : Nat) (name : String) (emission : Emission) :
    Atomic (declareParameter function name) emission := by
  rw [declareParameter_eq]
  exact atomic_declareInFrame function _ _ emission

theorem atomic_declareLocal (function : Nat) (name : String) (emission : Emission) :
    Atomic (declareLocal function name) emission := by
  rw [declareLocal_eq]
  exact atomic_declareInFrame function _ _ emission

/-! ## One step after the other -/

/-- Leaves a node: its own nesting is lowered first, and then that of its buffer, if it is a
leaf. -/
def leaveStepwise (id : Nat) : Emit Unit := do
  let node ← ask (·.node id)
  if node.nesting = 0 then throw (.unbalanced (nameOf node.kind id))
  update (·.modifyNode id fun node => { node with nesting := node.nesting - 1 })
  match node.body with
  | .leaf _ buffer =>
      let lines ← ask fun _ => buffer.leave (nameOf node.kind id)
      update (·.modifyNode id (·.mapBuffer fun _ => lines))
  | _ => return

/-- Adds the lines of one leaf to another, and then looks for the first one again, to put it
under the other. -/
def absorbStepwise (target source : Nat) : Emit Unit := do
  let lines ← ask (·.leaf source)
  require (·.leaf target)
  update (·.modifyNode target (·.mapBuffer (·.absorb lines)))
  require (·.node source)
  update (·.modifyNode source fun node => { node with parent := some target })

/-- The buffer of a leaf can be left where the leaf can. -/
theorem leaveStepwise_eq (h : emission.WellFormed) (id : Nat) :
    leaveStepwise id emission = leave id emission := by
  rw [leaveStepwise]
  cases hnode : emission.nodes[id]? with
  | none =>
      have hsize := Array.getElem?_eq_none_iff.mp hnode
      rw [bind_of_error (ask_of_error (node_of_missing hsize)), leave,
        bind_of_error (ask_of_error (bind_node_of_missing hsize _))]
  | some node =>
      have hfits := h.fits hnode
      rw [bind_of_ok (ask_of_ok (node_of_some hnode))]
      cases hnesting : node.nesting with
      | zero =>
          rw [run_leave_of_zero hnode hnesting]
          rfl
      | succ nesting =>
          obtain ⟨parent, base, _, body⟩ := node
          cases hnesting
          cases body with
          | leaf sort buffer =>
              -- the buffer has the nesting of its leaf, so that the second step does not fail
              obtain ⟨entries, level⟩ := buffer
              obtain rfl : level = nesting + 1 := hfits.buffer_nesting sort _ rfl
              rw [leave_of_some hnode rfl]
              apply congrArg (EStateM.Result.ok ())
              refine (modifyNode_modifyNode emission id _ _).trans ?_
              exact modifyNode_congr hnode rfl
          | _ =>
              rw [leave_of_some hnode rfl]
              exact congrArg (EStateM.Result.ok ()) (modifyNode_congr hnode rfl)

/-- Where a leaf and its buffer disagree, leaving the leaf fails halfway. -/
example :
    let emission : Emission := ⟨#[⟨none, 0, 1, .leaf .other (.empty 0)⟩], {}, {}⟩
    ∃ after, leaveStepwise 0 emission = .error (.unbalanced "NA_0") after ∧
      emission.nestingAt 0 = 1 ∧ after.nestingAt 0 = 0 :=
  ⟨_, rfl, rfl, rfl⟩

/-- A leaf that is there stays there while its lines are added to another. -/
theorem absorbStepwise_eq (target source : Nat) (emission : Emission) :
    absorbStepwise target source emission = absorb target source emission := by
  rw [absorbStepwise, absorb]
  cases hlines : emission.leaf source with
  | error error => rw [bind_of_error (ask_of_error hlines), bind_of_error (ask_of_error hlines)]
  | ok lines =>
      rw [bind_of_ok (ask_of_ok hlines), bind_of_ok (ask_of_ok hlines)]
      cases hleaf : emission.leaf target with
      | error error =>
          rw [bind_of_error (require_of_error hleaf), bind_of_error (require_of_error hleaf)]
      | ok buffer =>
          rw [bind_of_ok (require_of_ok hleaf), bind_of_ok (require_of_ok hleaf)]
          obtain ⟨node, sort, hnode, -⟩ := exists_leaf_of_ok hlines
          -- the source is looked for once more after the target has changed
          let filled := emission.modifyNode target (·.mapBuffer (·.absorb lines))
          have hupdate : update (·.modifyNode target (·.mapBuffer (·.absorb lines))) emission =
              .ok () filled := rfl
          have hsize : source < filled.nodes.size := by
            rw [size_modifyNode]
            exact lt_size_of_some hnode
          obtain ⟨other, hother⟩ := exists_node_of_lt hsize
          rw [bind_of_ok hupdate, bind_of_ok (require_of_ok (node_of_some hother))]
          rfl

end Emit

end MiniC
