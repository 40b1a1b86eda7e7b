import MiniC.Proofs.Emission.Positions

/-!
# Building placed emissions

`addChild` looks neither for cycles nor for a position that its child has already.  What
keeps an emission placed is how it is used: a node is created in no list, waits until
it is finished, and is then appended to a list once, or not at all.

`Follows before after` is what a run may do in between: it adds nodes, leaves those in no
list where they are, and restores the level of each node that it enters.  A new node may be
appended to a list of a composite that was there before (`Follows.adopt`), which is why
numbers grow downwards.
-/

namespace MiniC

namespace Emission

variable {before middle after : Emission} {id parent child : Nat} {node : Node}
  {context : Context} {pending : List Nat}

/-- An emission after more nodes were built.  Old nodes keep their levels, and new ones end
at theirs.  What was in no list is still in none. -/
structure Follows (before after : Emission) : Prop where
  size_le : before.nodes.size ≤ after.nodes.size
  old_level : ∀ {id : Nat} {node : Node}, before.nodes[id]? = some node →
    ∃ other, after.nodes[id]? = some other ∧ other.base = node.base ∧
      other.nesting = node.nesting
  new_level : ∀ {id : Nat} {node : Node}, before.nodes.size ≤ id → after.nodes[id]? = some node →
    node.nesting = node.base
  loose : ∀ {id : Nat}, id < before.nodes.size → before.Loose id → after.Loose id
  placed : before.Placed → after.Placed

/-- A placed emission with nodes that are in no list. -/
structure Ready (pending : List Nat) (emission : Emission) : Prop where
  placed : emission.Placed
  waiting : ∀ id ∈ pending, id < emission.nodes.size ∧ emission.Loose id

namespace Follows

protected theorem refl (emission : Emission) : emission.Follows emission where
  size_le := Nat.le_refl _
  old_level hnode := ⟨_, hnode, rfl, rfl⟩
  new_level hsize hnode := absurd (lt_size_of_some hnode) (Nat.not_lt.mpr hsize)
  loose _ hloose := hloose
  placed hplaced := hplaced

protected theorem trans (h : before.Follows middle) (hmore : middle.Follows after) :
    before.Follows after where
  size_le := Nat.le_trans h.size_le hmore.size_le
  old_level hnode := by
    obtain ⟨other, hother, hbase, hnesting⟩ := h.old_level hnode
    obtain ⟨last, hlast, hlastBase, hlastNesting⟩ := hmore.old_level hother
    exact ⟨last, hlast, hlastBase.trans hbase, hlastNesting.trans hnesting⟩
  new_level {id node} hsize hnode := by
    -- a new node is made by the second part, or else by the first
    by_cases hnew : middle.nodes.size ≤ id
    · exact hmore.new_level hnew hnode
    · obtain ⟨other, hother⟩ := exists_node_of_lt (Nat.lt_of_not_le hnew)
      obtain ⟨last, hlast, hbase, hnesting⟩ := hmore.old_level hother
      cases hlast.symm.trans hnode
      rw [hbase, hnesting]
      exact h.new_level hsize hother
  loose hlt hloose := hmore.loose (Nat.lt_of_lt_of_le hlt h.size_le) (h.loose hlt hloose)
  placed hplaced := hmore.placed (h.placed hplaced)

theorem ready (h : before.Follows after) (hready : before.Ready pending) : after.Ready pending where
  placed := h.placed hready.placed
  waiting id hmem := by
    obtain ⟨hlt, hloose⟩ := hready.waiting id hmem
    exact ⟨Nat.lt_of_lt_of_le hlt h.size_le, h.loose hlt hloose⟩

/-- Nodes may be the same ones, whatever becomes of the names. -/
theorem of_nodes_eq (h : after.nodes = before.nodes) : before.Follows after := by
  obtain ⟨nodes, globals, options⟩ := before
  obtain ⟨_, globals', options'⟩ := after
  cases h
  exact
    { size_le := Nat.le_refl _
      old_level := fun hnode => ⟨_, hnode, rfl, rfl⟩
      new_level := fun hsize hnode => absurd (lt_size_of_some hnode) (Nat.not_lt.mpr hsize)
      loose := fun _ hloose => hloose
      placed := fun hplaced => ⟨hplaced.later, hplaced.parent, hplaced.unique⟩ }

/-- A new node is at its level and in no list. -/
theorem push (emission : Emission) {body : Nat → Body} (hbody : Childless body) :
    emission.Follows (emission.push parent body) where
  size_le := by simp
  old_level hnode := by
    have hold := getElem?_push_old emission parent body (lt_size_of_some hnode)
    exact ⟨_, hold.trans hnode, rfl, rfl⟩
  new_level {id node} hsize hnode := by
    have hlt := lt_size_of_some hnode
    rw [size_push] at hlt
    obtain rfl : id = emission.nodes.size := by omega
    rw [getElem?_push_new] at hnode
    cases hnode
    rfl
  loose _ hloose := (loose_congr (listedAt?_push hbody)).mpr hloose
  placed hplaced := by
    refine hplaced.congr (listedAt?_push hbody) fun id node _ hnode => ?_
    have hold := getElem?_push_old emission parent body (lt_size_of_some hnode)
    exact ⟨_, hold.trans hnode, rfl⟩

/-- A node may change in all but its level and its lists.  Its parent may change as long as
no list holds the node. -/
theorem modifyNode (emission : Emission) {change : Node → Node}
    (hlevel : ∀ node, (change node).base = node.base ∧ (change node).nesting = node.nesting)
    (hlists : ∀ node context, (change node).body.children? context = node.body.children? context)
    (hparent : emission.Loose id ∨ ∀ node, (change node).parent = node.parent) :
    emission.Follows (emission.modifyNode id change) := by
  have hlisted := listedAt?_modifyNode emission id change fun node _ => hlists node
  refine ⟨by simp, ?_, ?_, ?_, ?_⟩
  · intro other node hnode
    rw [getElem?_modifyNode, hnode]
    split
    · exact ⟨_, rfl, hlevel node⟩
    · exact ⟨_, rfl, rfl, rfl⟩
  · intro other node hsize hnode
    have hlt := lt_size_of_some hnode
    rw [size_modifyNode] at hlt
    omega
  · intro other _ hloose
    exact (loose_congr hlisted).mpr hloose
  · intro hplaced
    apply hplaced.congr hlisted
    -- a node that some list holds is not loose, so that its parent is as before
    intro other node hheld hnode
    rw [getElem?_modifyNode, hnode]
    split
    next heq =>
      subst heq
      exact ⟨_, rfl, hparent.resolve_left hheld node⟩
    next => exact ⟨_, rfl, rfl⟩

/-- Lines may be added to a leaf. -/
theorem mapBuffer (emission : Emission) (id : Nat) (change : Asm.Buffer → Asm.Buffer) :
    emission.Follows (emission.modifyNode id (·.mapBuffer change)) := by
  refine modifyNode emission ?_ ?_ (.inr ?_)
  · exact fun node => ⟨node.base_mapBuffer change, node.nesting_mapBuffer change⟩
  · simp [Body.children?]
  · exact fun node => node.parent_mapBuffer change

/-- A function may get another frame. -/
theorem setFrame (emission : Emission) (id : Nat) (frame : Frame) :
    emission.Follows (emission.modifyNode id (·.setFrame frame)) := by
  refine modifyNode emission ?_ ?_ (.inr ?_)
  · exact fun node => ⟨node.base_setFrame frame, node.nesting_setFrame frame⟩
  · simp [Body.children?]
  · exact fun node => node.parent_setFrame frame

/-- A node that was made since may be appended to a list: it is in no other, and comes
after the composite, which was there before. -/
theorem adopt {ids : List Nat} (h : before.Follows middle) (hparent : parent < before.nodes.size)
    (hnode : middle.nodes[parent]? = some node) (hcontext : node.body.children? context = some ids)
    (hnew : before.nodes.size ≤ child) (hlt : child < middle.nodes.size)
    (hloose : middle.Loose child) : before.Follows (middle.adopt parent child context) where
  size_le := by simpa using h.size_le
  old_level hold := by
    obtain ⟨other, hother, hbase, hnesting⟩ := h.old_level hold
    obtain ⟨last, hlast, hlastBase, hlastNesting, -⟩ := exists_node_adopt hother
    exact ⟨last, hlast, hlastBase.trans hbase, hlastNesting.trans hnesting⟩
  new_level {id last} hsize hlast := by
    have hsame := lt_size_of_some hlast
    rw [size_adopt] at hsame
    obtain ⟨other, hother⟩ := exists_node_of_lt hsame
    obtain ⟨_, hadopted, hbase, hnesting, -⟩ := exists_node_adopt hother
    cases hlast.symm.trans hadopted
    rw [hbase, hnesting]
    exact h.new_level hsize hother
  loose hsize hwaits := (h.loose hsize hwaits).adopt hnode hcontext (by omega)
  placed hplaced := (h.placed hplaced).adopt hnode hcontext (by omega) hlt hloose

end Follows

/-! ## Entering and leaving a node -/

theorem Node.leave_eq_ok {outer : Node} {name : String} (h : node.leave name = .ok outer) :
    node.nesting = outer.nesting + 1 ∧ outer.base = node.base ∧ outer.parent = node.parent ∧
      ∀ context, outer.body.children? context = node.body.children? context := by
  obtain ⟨parent, base, nesting, body⟩ := node
  cases nesting with
  | zero => cases h
  | succ nesting =>
      cases body with
      | leaf sort buffer =>
          cases hleave : buffer.leave name with
          | error error => simp [Node.leave, hleave, bind, Except.bind] at h
          | ok lines =>
              simp only [Node.leave, hleave, bind, Except.bind, pure, Except.pure] at h
              cases h
              exact ⟨rfl, rfl, rfl, fun _ => rfl⟩
      | _ =>
          cases h
          exact ⟨rfl, rfl, rfl, fun _ => rfl⟩

theorem Node.enter_eq (node : Node) :
    node.enter.nesting = node.nesting + 1 ∧ node.enter.base = node.base ∧
      node.enter.parent = node.parent ∧
      ∀ context, node.enter.body.children? context = node.body.children? context := by
  obtain ⟨parent, base, nesting, body⟩ := node
  cases body <;> exact ⟨rfl, rfl, rfl, fun _ => rfl⟩

/-- A change of levels only, as entering and leaving a node are. -/
theorem Placed.of_level {change : Node → Node} (placed : before.Placed)
    (hchange : ∀ node, before.nodes[id]? = some node → (change node).parent = node.parent ∧
      ∀ context, (change node).body.children? context = node.body.children? context) :
    (before.modifyNode id change).Placed := by
  refine placed.congr (listedAt?_modifyNode before id change fun node hnode =>
    (hchange node hnode).2) fun other node _ hnode => ?_
  rw [getElem?_modifyNode, hnode]
  split
  next heq =>
    subst heq
    exact ⟨_, rfl, (hchange node hnode).1⟩
  next => exact ⟨_, rfl, rfl⟩

theorem Ready.enter (hready : before.Ready pending) (id : Nat) :
    (before.modifyNode id Node.enter).Ready pending where
  placed := hready.placed.of_level fun node _ => node.enter_eq.2.2
  waiting other hmem := by
    obtain ⟨hlt, hloose⟩ := hready.waiting other hmem
    have hlisted := listedAt?_modifyNode before id Node.enter fun node _ => node.enter_eq.2.2.2
    exact ⟨by simpa using hlt, (loose_congr hlisted).mpr hloose⟩

/-- A node that is left where it was entered is at its old level again. -/
theorem Follows.bracket {entered outer : Node} {name : String} (hlt : id < before.nodes.size)
    (h : (before.modifyNode id Node.enter).Follows middle)
    (hnode : middle.nodes[id]? = some entered) (hleave : entered.leave name = .ok outer) :
    before.Follows (middle.modifyNode id fun _ => outer) := by
  obtain ⟨hnesting, hbase, hparent, hlists⟩ := Node.leave_eq_ok hleave
  have hlast : ∀ node, middle.nodes[id]? = some node → outer.parent = node.parent ∧
      ∀ context, outer.body.children? context = node.body.children? context := by
    intro node hsame
    cases hnode.symm.trans hsame
    exact ⟨hparent, hlists⟩
  have hinner := listedAt?_modifyNode before id Node.enter fun node _ => node.enter_eq.2.2.2
  have houter := listedAt?_modifyNode middle id (fun _ => outer) fun node hsame =>
    (hlast node hsame).2
  have hsize := h.size_le
  rw [size_modifyNode] at hsize
  refine ⟨by simpa using hsize, ?_, ?_, ?_, ?_⟩
  · intro other node hat
    have henter := getElem?_modifyNode before id Node.enter other
    rw [hat] at henter
    rw [getElem?_modifyNode]
    split
    -- the node itself: one level deeper while it was entered, and back in the end
    next heq =>
      subst heq
      rw [if_pos rfl, Option.map_some] at henter
      obtain ⟨same, hsame, hsameBase, hsameNesting⟩ := h.old_level henter
      cases hnode.symm.trans hsame
      refine ⟨outer, by rw [hnode]; rfl, ?_, ?_⟩
      · rw [hbase, hsameBase, node.enter_eq.2.1]
      · rw [hnesting, node.enter_eq.1] at hsameNesting
        exact Nat.succ.inj hsameNesting
    next hne =>
      rw [if_neg hne] at henter
      exact h.old_level henter
  · intro other node hnew hat
    have hne : id ≠ other := by omega
    rw [getElem?_modifyNode_of_ne _ _ _ hne] at hat
    exact h.new_level (by simpa using hnew) hat
  · intro other hother hwaits
    rw [loose_congr houter]
    exact h.loose (by simpa using hother) ((loose_congr hinner).mpr hwaits)
  · intro hplaced
    have hentered : (before.modifyNode id Node.enter).Placed :=
      hplaced.of_level fun node _ => node.enter_eq.2.2
    exact (h.placed hentered).of_level hlast

end Emission

end MiniC
