import MiniC.Proofs.Ast.Insertion
import MiniC.Proofs.Building.Frames

/-!
# Rules for builders

Under a frame whose slot is there, a builder can do what storing the trees of a reading in
that slot does, and fail as the reading fails (`Performs`).  The rules follow the ways in
which builders are put together: reading a part of the parse tree, building one thing after
another, and creating a node and building what is in its slots.  The last is where nodes are
attached; no attachment is refused, since each node is new when it is attached and only
slots that its kind has are filled.
-/

namespace MiniC.Building

open Ast (Arena Kind Tree)
open ParseTree

section Rules

variable {α β γ : Type}

/-- The arena with the trees of what is read stored in the slot of a frame. -/
def Frame.store (frame : Frame) (arena : Arena) (trees : α → List Tree) :
    Reading α → Except Error (Unit × Arena)
  | .ok value => .ok ((), arena.insertAll frame.parent frame.slot (trees value))
  | .error malformation => .error malformation.toError

@[simp] theorem store_ok (frame : Frame) (arena : Arena) (trees : α → List Tree) (value : α) :
    frame.store arena trees (.ok value) =
      .ok ((), arena.insertAll frame.parent frame.slot (trees value)) := rfl

/-- Under a frame whose slot is there, a builder stores the trees of what is read. -/
def Performs (action : Builder Unit) (reading : Reading α) (trees : α → List Tree) : Prop :=
  ∀ frame frames arena, arena.HasSlot frame.parent frame.slot →
    action (frame :: frames) arena = frame.store arena trees reading

theorem bind_run (action : Builder α) (next : α → Builder β) (frames : List Frame)
    (arena : Arena) :
    (action >>= next) frames arena =
      match action frames arena with
      | .ok (value, after) => next value frames after
      | .error error => .error error := by
  change (action frames arena >>= fun (value, after) => next value frames after) = _
  cases action frames arena <;> rfl

theorem performs_pure {trees : α → List Tree} {value : α} (h : trees value = []) :
    Performs (pure ()) (pure value) trees := by
  intro frame frames arena hslot
  change _ = frame.store arena trees (.ok value)
  rw [store_ok, h]
  rfl

theorem performs_fail (malformation : Malformation) (trees : α → List Tree) :
    Performs (fail malformation) (.error malformation) trees :=
  fun _ _ _ _ => rfl

/-! ## Readings -/

/-- What is read first is read alike by both. -/
theorem performs_found {reading : Reading α} {next : α → Builder Unit} {rest : α → Reading β}
    {trees : β → List Tree} (h : ∀ value, reading = .ok value → Performs (next value) (rest value)
      trees) : Performs (found reading >>= next) (reading >>= rest) trees := by
  cases reading with
  | error malformation => exact performs_fail malformation trees
  | ok value => exact h value rfl

theorem Performs.congr {action : Builder Unit} {reading : Reading α} {trees others : α → List Tree}
    (h : Performs action reading trees)
    (htrees : ∀ value, reading = .ok value → others value = trees value) :
    Performs action reading others := by
  intro frame frames arena hslot
  rw [h frame frames arena hslot]
  cases reading with
  | error malformation => rfl
  | ok value => rw [store_ok, store_ok, htrees value rfl]

theorem Performs.result {action : Builder Unit} {reading : Reading α} {change : α → β}
    {trees : α → List Tree} {changed : β → List Tree} (h : Performs action reading trees)
    (htrees : ∀ value, changed (change value) = trees value) :
    Performs action (do return change (← reading)) changed := by
  intro frame frames arena hslot
  rw [h frame frames arena hslot]
  cases reading with
  | error malformation => rfl
  | ok value =>
      change _ = frame.store arena changed (.ok (change value))
      rw [store_ok, store_ok, htrees]

theorem Performs.map {action : Builder Unit} {reading : Reading α} {change : α → β}
    {trees : α → List Tree} {changed : β → List Tree} (h : Performs action reading trees)
    (htrees : ∀ value, changed (change value) = trees value) :
    Performs action (change <$> reading) changed := by
  rw [map_eq_pure_bind]
  exact h.result htrees

/-! ## Sequences -/

/-- What is built first is stored before the rest. -/
theorem Performs.seq {action next : Builder Unit} {reading : Reading α} {rest : Reading β}
    {front : α → List Tree} {back : β → List Tree} {trees : γ → List Tree}
    (hfirst : Performs action reading front) (hnext : Performs next rest back)
    (result : α → β → γ)
    (htrees : ∀ value other, trees (result value other) = front value ++ back other) :
    Performs (do action; next) (do return result (← reading) (← rest)) trees := by
  intro frame frames arena hslot
  rw [bind_run, hfirst frame frames arena hslot]
  -- what fails first ends both, so only a first part that succeeds leaves something to do
  cases reading with
  | error malformation => rfl
  | ok value =>
      rw [store_ok]
      dsimp only
      rw [hnext frame frames _ (hslot.insertAll ..)]
      cases rest with
      | error malformation => rfl
      | ok other =>
          change _ = frame.store arena trees (.ok (result value other))
          rw [store_ok, store_ok, htrees, Arena.insertAll_append]

/-- What is built first without a reading is stored before the rest. -/
theorem Performs.before {action next : Builder Unit} {reading : Reading β} {front : List Tree}
    {back : β → List Tree} (hfirst : Performs action (pure ()) fun _ => front)
    (hnext : Performs next reading back) :
    Performs (do action; next) reading fun value => front ++ back value := by
  have hboth : Performs (do action; next) (reading >>= pure) fun value => front ++ back value :=
    hfirst.seq hnext (fun _ value => value) fun _ _ => rfl
  rwa [bind_pure] at hboth

/-- Elements are built as they are read, one after another. -/
theorem performs_forM {act : α → Builder Unit} {read : α → Reading β} {tree : β → Tree}
    {elements : List α}
    (h : ∀ element ∈ elements, Performs (act element) (read element) fun value => [tree value]) :
    Performs (elements.forM act) (elements.mapM read) (List.map tree) := by
  induction elements with
  | nil => exact performs_pure rfl
  | cons element elements ih =>
      have hfirst := h element List.mem_cons_self
      have hrest := ih fun other hother => h other (List.mem_cons_of_mem _ hother)
      rw [List.mapM_cons]
      exact hfirst.seq hrest List.cons fun _ _ => rfl

/-! ## Nodes -/

/-- A new node is attached to the top frame. -/
theorem create_run {frame : Frame} {arena : Arena}
    (h : arena.HasSlot frame.parent frame.slot) (kind : Kind) (location : Location)
    (frames : List Frame) :
    create kind location (frame :: frames) arena =
      .ok (arena.size,
        (arena.create kind location).2.link frame.parent arena.size frame.slot) := by
  have hattach := Arena.attach_create h kind location
  let created := (arena.create kind location).2
  change (((created.attach frame.parent arena.size frame.slot >>= fun attached =>
    pure (attached, created)) >>= fun (attached, _) => .ok (arena.size, attached)) :
      Except Error (Ast.Id × Arena)) = _
  rw [hattach]
  rfl

/-- Where there is no slot, the construction ends. -/
example : (create .breakStatement .unknown >>= fun id => within id 0 (create .block .unknown)) []
    Arena.empty = .error (.structural "BreakStatement#0" 0 .unknown "node declares no slots") := rfl

/-- A builder fills the slot of a new node of a kind with the trees of what is read, which
are none if the kind has no such slot. -/
def Fills (kind : Kind) (slot : Nat) (action : Builder Unit) (reading : Reading α)
    (trees : α → List Tree) : Prop :=
  ∀ id frames arena, (∀ index, index < kind.slotCount → arena.HasSlot id index) →
    within id slot action frames arena = Frame.store ⟨id, slot⟩ arena trees reading

theorem Performs.fills {kind : Kind} {slot : Nat} {action : Builder Unit} {reading : Reading α}
    {trees : α → List Tree} (h : Performs action reading trees) (hslot : slot < kind.slotCount) :
    Fills kind slot action reading trees :=
  fun id frames arena hslots => h ⟨id, slot⟩ frames arena (hslots slot hslot)

theorem fills_nothing (kind : Kind) (slot : Nat) :
    Fills kind slot (pure ()) (pure ()) fun _ => [] :=
  fun _ _ _ _ => rfl

/-- A node and what is in its slots are built as they are read. -/
theorem performs_node {kind : Kind} {location : Location} {δ : Type}
    {first second third : Builder Unit} {one : Reading α} {two : Reading β} {three : Reading γ}
    {firstTrees : α → List Tree} {secondTrees : β → List Tree} {thirdTrees : γ → List Tree}
    {trees : δ → List Tree} (result : α → β → γ → δ)
    (hfirst : Fills kind 0 first one firstTrees) (hsecond : Fills kind 1 second two secondTrees)
    (hthird : Fills kind 2 third three thirdTrees)
    (htrees : ∀ a b c, trees (result a b c) =
      [.node kind location (firstTrees a) (secondTrees b) (thirdTrees c)]) :
    Performs (node kind location first second third)
      (do return result (← one) (← two) (← three)) trees := by
  intro frame frames arena hslot
  let created := (arena.create kind location).2.link frame.parent arena.size frame.slot
  have hcreated : ∀ index, index < kind.slotCount → created.HasSlot arena.size index :=
    fun index hindex => (Arena.hasSlot_create hindex arena location).link ..
  -- the slots of the new node are still there after each of the things stored before
  rw [node, bind_run, create_run hslot]
  dsimp only
  rw [bind_run, hfirst _ _ _ hcreated]
  cases one with
  | error malformation => rfl
  | ok a =>
      rw [store_ok]
      dsimp only
      rw [bind_run, hsecond _ _ _ fun index hindex => (hcreated index hindex).insertAll ..]
      cases two with
      | error malformation => rfl
      | ok b =>
          rw [store_ok]
          dsimp only
          rw [hthird _ _ _ fun index hindex =>
            ((hcreated index hindex).insertAll ..).insertAll ..]
          cases three with
          | error malformation => rfl
          | ok c =>
              change _ = frame.store arena trees (.ok (result a b c))
              -- what is now in the arena is the node with its slots, stored as one tree
              rw [store_ok, store_ok, htrees, Arena.insertAll_node hslot.lt_size]

variable {trees : γ → List Tree}

theorem performs_leaf {kind : Kind} {location : Location} {value : γ}
    (htrees : trees value = [.leaf kind location]) :
    Performs (node kind location) (pure value) trees := by
  have hnothing := fills_nothing kind
  exact performs_node (fun _ _ _ => value) (hnothing 0) (hnothing 1) (hnothing 2)
    fun _ _ _ => htrees

theorem Performs.node {first : Builder Unit} {one : Reading α} {firstTrees : α → List Tree}
    (hfirst : Performs first one firstTrees) (kind : Kind) (location : Location)
    (hslots : 1 ≤ kind.slotCount) :
    Performs (Building.node kind location first) one fun a =>
      [.node kind location (firstTrees a) [] []] := by
  have hnode : Performs (Building.node kind location first) (one >>= pure) fun a =>
      [.node kind location (firstTrees a) [] []] :=
    performs_node (fun a _ _ => a) (hfirst.fills hslots) (fills_nothing kind 1)
      (fills_nothing kind 2) fun _ _ _ => rfl
  rwa [bind_pure] at hnode

theorem Performs.node₂ {first second : Builder Unit} {one : Reading α} {two : Reading β}
    {firstTrees : α → List Tree} {secondTrees : β → List Tree}
    (hfirst : Performs first one firstTrees) (hsecond : Performs second two secondTrees)
    (kind : Kind) (location : Location) (hslots : 2 ≤ kind.slotCount) (result : α → β → γ)
    (htrees : ∀ a b, trees (result a b) =
      [.node kind location (firstTrees a) (secondTrees b) []]) :
    Performs (Building.node kind location first second)
      (do return result (← one) (← two)) trees :=
  performs_node (fun a b _ => result a b) (hfirst.fills (Nat.lt_of_succ_lt hslots))
    (hsecond.fills hslots) (fills_nothing kind 2) fun a b _ => htrees a b

end Rules

end MiniC.Building
