import MiniC.Proofs.Emission.Placement

/-!
# Computations that keep emissions placed

A computation is `Tidy` if an emission that it ends in follows the one that it starts from,
and it `Makes` a node if the one that it returns is new and in no list.  Both are relative
to nodes that are in no list yet and have been made before; they still are in no list
afterwards.  There is one rule for each way to combine computations and one for each
operation.
-/

namespace MiniC

namespace Emit

open Emission
open Asm (Instruction)

variable {α β : Type} {pending : List Nat} {before after : Emission} {id parent child : Nat}

/-! ## How operations end -/

theorem require_eq_ok {question : Emission → Except Error α} {result : Unit} :
    require question before = .ok result after ↔
      (∃ answer, question before = .ok answer) ∧ before = after := by
  rw [require, ask_eq_ok]
  cases h : question before <;> simp [Functor.discard, Functor.mapConst, Except.map]

theorem node_eq_ok {node : Node} : before.node id = .ok node ↔ before.nodes[id]? = some node := by
  rw [Emission.node]
  cases before.nodes[id]? <;> simp

/-- How `create` ends, for a kind whose nodes it makes with some body. -/
theorem push_eq_ok {body : Nat → Body} (h : (do
      require (·.node parent)
      Emit.push parent body : Emit Nat) before = .ok id after) :
    parent < before.nodes.size ∧ id = before.nodes.size ∧ after = before.push parent body := by
  obtain ⟨_, middle, hrequire, hpush⟩ := bind_eq_ok.mp h
  obtain ⟨⟨node, hnode⟩, rfl⟩ := require_eq_ok.mp hrequire
  cases hpush
  exact ⟨lt_size_of_some (node_eq_ok.mp hnode), rfl, rfl⟩

theorem create_eq_ok {kind : Kind} (h : create kind parent before = .ok id after) :
    parent < before.nodes.size ∧ id = before.nodes.size ∧
      ∃ body, Childless body ∧ after = before.push parent body := by
  cases kind with
  | leaf sort =>
      obtain ⟨hparent, hid, hafter⟩ := push_eq_ok h
      exact ⟨hparent, hid, _, fun _ _ => rfl, hafter⟩
  | conditional | loop | compound =>
      obtain ⟨hparent, hid, hafter⟩ := push_eq_ok h
      exact ⟨hparent, hid, _, fun _ context => by cases context <;> rfl, hafter⟩
  | file | function => cases h

theorem children_eq_ok {context : Context} {ids : List Nat} :
    before.children id context = .ok ids ↔
      ∃ node, before.nodes[id]? = some node ∧ node.body.children? context = some ids := by
  rw [Emission.children]
  cases hnode : before.nodes[id]? with
  | none => simp [Emission.node, hnode, bind, Except.bind]
  | some node =>
      simp only [node_of_some hnode, bind, Except.bind, Option.some.injEq, exists_eq_left']
      cases node.body.children? context <;> simp

theorem addChild_eq_ok {context : Context} {result : Unit}
    (h : addChild parent context child before = .ok result after) :
    (∃ node ids, before.nodes[parent]? = some node ∧ node.body.children? context = some ids) ∧
      after = before.adopt parent child context := by
  obtain ⟨_, middle, hchild, h⟩ := bind_eq_ok.mp h
  obtain ⟨-, rfl⟩ := require_eq_ok.mp hchild
  obtain ⟨_, middle, hcontext, h⟩ := bind_eq_ok.mp h
  obtain ⟨⟨ids, hids⟩, rfl⟩ := require_eq_ok.mp hcontext
  obtain ⟨node, hnode, hlist⟩ := children_eq_ok.mp hids
  cases h
  exact ⟨⟨node, ids, hnode, hlist⟩, rfl⟩

/-! ## Combining computations -/

/-- What a computation does to the nodes that have been made before is right, and so is its
result. -/
def Tidy (pending : List Nat) (post : α → Prop) (action : Emit α) : Prop :=
  ∀ ⦃before value after⦄, before.Ready pending → action before = .ok value after →
    before.Follows after ∧ post value

/-- A computation returns a new node that is in no list. -/
def Makes (pending : List Nat) (action : Emit Nat) : Prop :=
  ∀ ⦃before id after⦄, before.Ready pending → action before = .ok id after →
    before.Follows after ∧ before.nodes.size ≤ id ∧ id < after.nodes.size ∧ after.Loose id

/-- A computation may return a new node that is in no list. -/
def MayMake (pending : List Nat) (action : Emit (Option Nat)) : Prop :=
  ∀ ⦃before made after⦄, before.Ready pending → action before = .ok made after →
    before.Follows after ∧ ∀ id, made = some id → id < after.nodes.size ∧ after.Loose id

theorem ready_cons (hready : after.Ready pending) (hlt : id < after.nodes.size)
    (hloose : after.Loose id) : after.Ready (id :: pending) :=
  ⟨hready.placed, List.forall_mem_cons.mpr ⟨⟨hlt, hloose⟩, hready.waiting⟩⟩

section Combine

variable {post : α → Prop} {goal : β → Prop} {action : Emit α} {next : α → Emit β}
  {make : Emit Nat}

theorem Tidy.bind (h : Tidy pending post action)
    (hnext : ∀ value, post value → Tidy pending goal (next value)) :
    Tidy pending goal (action >>= next) := by
  intro before result last hready hrun
  obtain ⟨value, middle, hvalue, hrest⟩ := bind_eq_ok.mp hrun
  obtain ⟨hfollows, hpost⟩ := h hready hvalue
  obtain ⟨hmore, hgoal⟩ := hnext value hpost (hfollows.ready hready) hrest
  exact ⟨hfollows.trans hmore, hgoal⟩

/-- What was made stays in no list. -/
theorem Tidy.making {next : Nat → Emit β} (h : Makes pending make)
    (hnext : ∀ id, Tidy (id :: pending) goal (next id)) : Tidy pending goal (make >>= next) := by
  intro before result last hready hrun
  obtain ⟨id, middle, hid, hrest⟩ := bind_eq_ok.mp hrun
  obtain ⟨hfollows, -, hlt, hloose⟩ := h hready hid
  obtain ⟨hmore, hgoal⟩ := hnext id (ready_cons (hfollows.ready hready) hlt hloose) hrest
  exact ⟨hfollows.trans hmore, hgoal⟩

theorem Makes.seq {next : α → Emit Nat} (h : Tidy pending post action)
    (hnext : ∀ value, post value → Makes pending (next value)) :
    Makes pending (action >>= next) := by
  intro before id last hready hrun
  obtain ⟨value, middle, hvalue, hrest⟩ := bind_eq_ok.mp hrun
  obtain ⟨hfollows, hpost⟩ := h hready hvalue
  obtain ⟨hmore, hnew, hlt, hloose⟩ := hnext value hpost (hfollows.ready hready) hrest
  exact ⟨hfollows.trans hmore, Nat.le_trans hfollows.size_le hnew, hlt, hloose⟩

/-- A node is returned after more was done to it. -/
theorem Makes.bind {next : Nat → Emit Nat} (h : Makes pending make)
    (hnext : ∀ id, Tidy (id :: pending) (· = id) (next id)) : Makes pending (make >>= next) := by
  intro before id last hready hrun
  obtain ⟨_, middle, hid, hrest⟩ := bind_eq_ok.mp hrun
  obtain ⟨hfollows, hnew, hlt, hloose⟩ := h hready hid
  obtain ⟨hmore, rfl⟩ := hnext _ (ready_cons (hfollows.ready hready) hlt hloose) hrest
  exact ⟨hfollows.trans hmore, hnew, Nat.lt_of_lt_of_le hlt hmore.size_le, hmore.loose hlt hloose⟩

theorem Makes.seq_maybe {next : Option Nat → Emit Nat} {action : Emit (Option Nat)}
    (h : MayMake pending action) (hnone : Makes pending (next none))
    (hsome : ∀ id, Makes (id :: pending) (next (some id))) : Makes pending (action >>= next) := by
  intro before id last hready hrun
  obtain ⟨made, middle, hmade, hrest⟩ := bind_eq_ok.mp hrun
  obtain ⟨hfollows, hwaits⟩ := h hready hmade
  have hmiddle := hfollows.ready hready
  obtain ⟨hmore, hnew, hlt, hloose⟩ : middle.Follows last ∧ middle.nodes.size ≤ id ∧
      id < last.nodes.size ∧ last.Loose id := by
    -- what may have been made waits, next to the nodes that waited before
    cases made with
    | none => exact hnone hmiddle hrest
    | some first =>
        obtain ⟨hlt, hloose⟩ := hwaits first rfl
        exact hsome first (ready_cons hmiddle hlt hloose) hrest
  exact ⟨hfollows.trans hmore, Nat.le_trans hfollows.size_le hnew, hlt, hloose⟩

theorem Tidy.pure {value : α} (h : post value) : Tidy pending post (Pure.pure value : Emit α) := by
  intro before result after hready hrun
  obtain ⟨rfl, rfl⟩ := pure_eq_ok.mp hrun
  exact ⟨.refl before, h⟩

theorem Makes.throw (error : Error) : Makes pending (MonadExcept.throw error : Emit Nat) := by
  intro before result after hready hrun
  cases hrun

/-- A new node may be left aside. -/
theorem Makes.tidy (h : Makes pending make) : Tidy pending (fun _ => True) make :=
  fun _ _ _ hready hrun => ⟨(h hready hrun).1, trivial⟩

theorem Tidy.discard (h : Tidy pending post action) :
    Tidy pending (fun _ => True) (discard action) := by
  intro before result after hready hrun
  obtain ⟨value, hvalue⟩ := discard_eq_ok.mp hrun
  exact ⟨(h hready hvalue).1, trivial⟩

theorem Makes.ite {first second : Emit Nat} (condition : Prop) [Decidable condition]
    (hfirst : Makes pending first) (hsecond : Makes pending second) :
    Makes pending (if condition then first else second) := by
  split
  · exact hfirst
  · exact hsecond

theorem MayMake.ite {first second : Emit (Option Nat)} (condition : Prop) [Decidable condition]
    (hfirst : MayMake pending first) (hsecond : MayMake pending second) :
    MayMake pending (if condition then first else second) := by
  split
  · exact hfirst
  · exact hsecond

theorem MayMake.none : MayMake pending (Pure.pure Option.none) := by
  intro before made after hready hrun
  obtain ⟨rfl, rfl⟩ := pure_eq_ok.mp hrun
  exact ⟨.refl before, by simp⟩

theorem Makes.some (h : Makes pending make) :
    MayMake pending (make >>= fun id => Pure.pure (Option.some id)) := by
  intro before made after hready hrun
  obtain ⟨id, middle, hid, hpure⟩ := bind_eq_ok.mp hrun
  obtain ⟨rfl, rfl⟩ := pure_eq_ok.mp hpure
  obtain ⟨hfollows, -, hlt, hloose⟩ := h hready hid
  refine ⟨hfollows, ?_⟩
  intro other hsame
  cases hsame
  exact ⟨hlt, hloose⟩

theorem Tidy.ite {first second : Emit α} (condition : Prop) [Decidable condition]
    (hfirst : Tidy pending post first) (hsecond : Tidy pending post second) :
    Tidy pending post (if condition then first else second) := by
  split
  · exact hfirst
  · exact hsecond

end Combine

/-! ## Operations -/

theorem Tidy.ask (question : Emission → Except Error α) :
    Tidy pending (fun _ => True) (Emit.ask question) := by
  intro before result after hready hrun
  obtain ⟨-, rfl⟩ := ask_eq_ok.mp hrun
  exact ⟨.refl before, trivial⟩

theorem Tidy.require (question : Emission → Except Error α) :
    Tidy pending (fun _ => True) (Emit.require question) :=
  .ask _

/-- A change of the nodes that its preconditions allow. -/
theorem Tidy.update {change : Emission → Emission}
    (h : ∀ emission, Ready pending emission → emission.Follows (change emission)) :
    Tidy pending (fun _ => True) (Emit.update change) := by
  intro before result after hready hrun
  cases hrun
  exact ⟨h before hready, trivial⟩

theorem Makes.create (kind : Kind) (parent : Nat) : Makes pending (Emit.create kind parent) := by
  intro before id after hready hrun
  obtain ⟨-, rfl, body, hbody, rfl⟩ := create_eq_ok hrun
  refine ⟨.push before hbody, Nat.le_refl _, by simp, ?_⟩
  exact (loose_congr (listedAt?_push hbody)).mpr (hready.placed.loose_of_size_le (Nat.le_refl _))

theorem Makes.createFunction (name : String) : Makes pending (Emit.createFunction name) := by
  intro before id after hready hrun
  have hbody : Childless fun _ => .function [] [] { name } := by
    intro _ context
    cases context <;> rfl
  cases hrun
  refine ⟨.push before hbody, Nat.le_refl _, by simp, ?_⟩
  exact (loose_congr (listedAt?_push hbody)).mpr (hready.placed.loose_of_size_le (Nat.le_refl _))

theorem Tidy.add (id : Nat) (instruction : Instruction) :
    Tidy pending (fun _ => True) (Emit.add id instruction) :=
  .bind (.require _) fun _ _ => .update fun emission _ => .mapBuffer emission id _

theorem Tidy.addAll (id : Nat) (instructions : List Instruction) :
    Tidy pending (fun _ => True) (Emit.addAll id instructions) := by
  induction instructions with
  | nil => exact .pure trivial
  | cons instruction instructions ih => exact (Tidy.add id instruction).bind fun _ _ => ih

theorem Tidy.setFrame (id : Nat) (frame : Frame) :
    Tidy pending (fun _ => True) (Emit.update (·.modifyNode id (·.setFrame frame))) :=
  .update fun emission _ => .setFrame emission id frame

/-- A leaf that is in no list may be absorbed, which makes another leaf its parent. -/
theorem Tidy.absorb (target : Nat) {source : Nat} (hsource : source ∈ pending) :
    Tidy pending (fun _ => True) (Emit.absorb target source) := by
  refine .bind (.ask _) fun lines _ => .bind (.require _) fun _ _ => ?_
  refine .update ?_
  intro emission hready
  have hlines : emission.Follows
      (emission.modifyNode target (·.mapBuffer (·.absorb lines))) :=
    .mapBuffer emission target _
  -- the source is put under the target, which its being in no list allows
  refine hlines.trans (.modifyNode _ (fun _ => ⟨rfl, rfl⟩) (fun _ _ => rfl) (.inl ?_))
  exact ((hlines.ready hready).waiting source hsource).2

/-- A node that has just been made is appended to a composite that was there before. -/
theorem Tidy.attach {make : Emit Nat} {next : Emit α} {post : α → Prop} (h : Makes pending make)
    {composite : Nat} (hcomposite : composite ∈ pending) (context : Context)
    (hnext : Tidy pending post next) :
    Tidy pending post (make >>= fun code => addChild composite context code >>= fun _ => next) := by
  intro before result last hready hrun
  obtain ⟨code, made, hmade, hrun⟩ := bind_eq_ok.mp hrun
  obtain ⟨_, attached, hattached, hrun⟩ := bind_eq_ok.mp hrun
  obtain ⟨hfollows, hnew, hlt, hloose⟩ := h hready hmade
  obtain ⟨⟨node, ids, hnode, hids⟩, rfl⟩ := addChild_eq_ok hattached
  -- the composite was there before the child, so that the child comes after it
  have hadopt := hfollows.adopt (hready.waiting composite hcomposite).1 hnode hids hnew hlt hloose
  obtain ⟨hmore, hpost⟩ := hnext (hadopt.ready hready) hrun
  exact ⟨hadopt.trans hmore, hpost⟩

/-- The line of a composite goes to a leaf that is made for it. -/
theorem Tidy.addLine (composite : Nat) (context : Context) (instruction : Instruction) :
    Tidy pending (fun _ => True) (Emit.addLine composite context instruction) := by
  intro before result last hready hrun
  obtain ⟨leaf, created, hcreated, hrun⟩ := bind_eq_ok.mp hrun
  obtain ⟨_, filled, hfilled, hattached⟩ := bind_eq_ok.mp hrun
  obtain ⟨hcomposite, -⟩ := create_eq_ok hcreated
  obtain ⟨hfollows, hnew, hlt, hloose⟩ := Makes.create _ composite hready hcreated
  obtain ⟨hadded, -⟩ := Tidy.add leaf instruction (hfollows.ready hready) hfilled
  obtain ⟨⟨node, ids, hnode, hids⟩, rfl⟩ := addChild_eq_ok hattached
  exact ⟨(hfollows.trans hadded).adopt hcomposite hnode hids hnew
    (Nat.lt_of_lt_of_le hlt hadded.size_le) (hadded.loose hlt hloose), trivial⟩

theorem enter_eq_ok {result : Unit} (h : Emit.enter id before = .ok result after) :
    id < before.nodes.size ∧ after = before.modifyNode id Node.enter := by
  obtain ⟨_, middle, hrequire, hlast⟩ := bind_eq_ok.mp h
  obtain ⟨⟨node, hnode⟩, rfl⟩ := require_eq_ok.mp hrequire
  cases hlast
  exact ⟨lt_size_of_some (node_eq_ok.mp hnode), rfl⟩

theorem leave_eq_ok {result : Unit} (h : Emit.leave id before = .ok result after) :
    ∃ node outer, before.nodes[id]? = some node ∧ node.leave (nameOf node.kind id) = .ok outer ∧
      after = before.modifyNode id fun _ => outer := by
  obtain ⟨outer, middle, hask, hlast⟩ := bind_eq_ok.mp h
  obtain ⟨houter, rfl⟩ := ask_eq_ok.mp hask
  cases hlast
  cases hnode : before.nodes[id]? with
  | none => simp [Emission.node, hnode, bind, Except.bind] at houter
  | some node =>
      simp only [node_of_some hnode, bind, Except.bind] at houter
      exact ⟨node, outer, rfl, houter, rfl⟩

/-- What is done inside of a node sees it at another level, which is undone in the end. -/
theorem Tidy.inside {body : Emit β} {next : Emit α} {post : α → Prop} {within : β → Prop}
    (id : Nat) (hbody : Tidy pending within body) (hnext : Tidy pending post next) :
    Tidy pending post
      (Emit.enter id >>= fun _ => body >>= fun _ => Emit.leave id >>= fun _ => next) := by
  intro before result last hready hrun
  obtain ⟨_, entered, hentered, hrun⟩ := bind_eq_ok.mp hrun
  obtain ⟨_, filled, hfilled, hrun⟩ := bind_eq_ok.mp hrun
  obtain ⟨_, left, hleft, hrun⟩ := bind_eq_ok.mp hrun
  obtain ⟨hlt, rfl⟩ := enter_eq_ok hentered
  obtain ⟨node, outer, hnode, houter, rfl⟩ := leave_eq_ok hleft
  obtain ⟨hfollows, -⟩ := hbody (hready.enter id) hfilled
  have hbracket := hfollows.bracket hlt hnode houter
  obtain ⟨hmore, hpost⟩ := hnext (hbracket.ready hready) hrun
  exact ⟨hbracket.trans hmore, hpost⟩

/-! ## Names -/

theorem Tidy.setGlobals (change : Globals → Globals) :
    Tidy pending (fun _ => True)
      (Emit.update fun emission => { emission with globals := change emission.globals }) :=
  .update fun _ _ => .of_nodes_eq rfl

theorem Tidy.declareVariable (name : String) (value : Option Int32) :
    Tidy pending (fun _ => True) (Emit.declareVariable name value) :=
  .bind (.ask _) fun known _ => .ite (known = true) (.pure trivial) <|
    .bind (.setGlobals (·.addVariable name)) fun _ _ =>
      .bind (.addLine _ _ _) fun _ _ => .pure trivial

theorem Tidy.registerFunction (name : String) :
    Tidy pending (fun _ => True) (Emit.registerFunction name) :=
  .bind (.ask _) fun known _ => .ite (known = true) (.pure trivial) <|
    .bind (.setGlobals (·.addFunction name)) fun _ _ => .pure trivial

theorem Tidy.declareFunction (name : String) (arity : Nat) :
    Tidy pending (fun _ => True) (Emit.declareFunction name arity) :=
  (Tidy.registerFunction name).bind fun isNew _ => .ite (isNew = true)
    (.bind (.addLine _ _ _) fun _ _ => .pure trivial) (.pure trivial)

theorem Tidy.declareInFrame (function : Nat) (add : Frame → Int32 × Bool × Frame)
    (comment : Int32 → Instruction) :
    Tidy pending (fun _ => True) (Emit.declareInFrame function add comment) := by
  refine .bind (.ask _) ?_
  rintro ⟨offset, isNew, frame⟩ -
  exact .ite (isNew = true)
    (.bind (.setFrame function frame) fun _ _ => .bind (.addLine _ _ _) fun _ _ => .pure trivial)
    (.pure trivial)

theorem Tidy.declareParameter (function : Nat) (name : String) :
    Tidy pending (fun _ => True) (Emit.declareParameter function name) := by
  rw [declareParameter_eq]
  exact .declareInFrame function _ _

theorem Tidy.declareLocal (function : Nat) (name : String) :
    Tidy pending (fun _ => True) (Emit.declareLocal function name) := by
  rw [declareLocal_eq]
  exact .declareInFrame function _ _

end Emit

end MiniC
