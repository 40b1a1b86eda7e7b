import MiniC.Emission.Layout
import MiniC.Proofs.Emission.Operations

/-!
# Assembled nodes

`Emission.Lays emission id entries` says that assembling a node makes the lines
`entries`, without running the assembly: the lines of a composite are laid out
around those of its children (`layout`).  Each child has a greater number than
its parent, which is how nodes are created, so that assembly always ends
(`assemble_of_lays`).

The lines of a node depend on nothing but the bases and the bodies of the node
and of those below it (`Lays.congr`).
-/

namespace MiniC.Emission

open Asm (Buffer Entry Instruction)

/-- The lines of a node, with those of the children in each of its contexts. -/
def layout (options : Asm.Options) (id : Nat) (node : Node) (gathered : Context → List Entry) :
    List Entry :=
  let label (suffix : String) := nameOf node.kind id ++ "_" ++ suffix
  let own (code : List Instruction) := code.map (Entry.mk node.base)
  let inner (code : List Instruction) := code.map (Entry.mk (node.base + 1))
  match node.body with
  | .leaf _ buffer => buffer.entries.toList
  | .file _ _ =>
      own (fileHead options) ++ gathered .fileData ++ own [.directive ".code"] ++
        gathered .fileCode ++ own [.fileEnd options.entryPoint]
  | .function _ _ frame =>
      own [.proc frame.name] ++ inner (prologue frame) ++ gathered .functionHeader ++
        gathered .functionBody ++ inner (epilogue frame) ++ own [.endp frame.name]
  | .conditional _ _ _ =>
      gathered .ifCondition ++ own (jumpIfZero (label "else")) ++ gathered .ifThen ++
        own [.jmp (label "endif"), .label (label "else")] ++ gathered .ifElse ++
        own [.label (label "endif")]
  | .loop _ _ =>
      own [.label (label "loop")] ++ gathered .whileCondition ++ own (jumpIfZero (label "end")) ++
        gathered .whileBody ++ own [.jmp (label "loop"), .label (label "end")]
  | .compound _ => gathered .compoundBody

/-- Assembling a node makes these lines. -/
inductive Lays (emission : Emission) : Nat → List Entry → Prop
  | intro {id : Nat} {node : Node} (hnode : emission.nodes[id]? = some node)
      (parts : Context → List (Nat × List Entry))
      (hids : ∀ context ids, node.body.children? context = some ids →
        ids = (parts context).map Prod.fst)
      (hlater : ∀ context, ∀ part ∈ parts context, id < part.1)
      (hparts : ∀ context, ∀ part ∈ parts context, Lays emission part.1 part.2) :
      Lays emission id
        (layout emission.options id node fun context => (parts context).flatMap Prod.snd)

/-- Assembling the children of a node makes these lines. -/
def LaysAll (emission : Emission) (parent : Nat) (ids : List Nat) (entries : List Entry) : Prop :=
  ∃ parts : List (Nat × List Entry), ids = parts.map Prod.fst ∧ entries = parts.flatMap Prod.snd ∧
    ∀ part ∈ parts, parent < part.1 ∧ Lays emission part.1 part.2

/-- Whether a node is that of a function. -/
def isFunction (emission : Emission) (id : Nat) : Bool :=
  emission.nodes[id]?.any (·.kind == .function)

/-- The nodes of the functions of a file, in order. -/
def functions (emission : Emission) : List Nat :=
  ((emission.nodes[fileId]?.bind (·.body.children? .fileCode)).getD []).filter emission.isFunction

variable {emission before after : Emission}

/-! ## Assembly ends -/

/-- Adds the lines of nodes to those before. -/
def gather (emission : Emission) (depth : Nat) (out : Buffer) (ids : List Nat) :
    Except Error Buffer :=
  ids.foldlM (fun out child => do return out.append (← emission.assembleTo depth child)) out

theorem gather_eq (emission : Emission) (depth : Nat) (out : Buffer) (ids : List Nat) :
    emission.gather depth out ids =
      ids.foldlM (fun out child => do return out.append (← emission.assembleTo depth child)) out :=
  rfl

theorem gather_of_ok {depth : Nat} (parts : List (Nat × List Entry))
    (h : ∀ part ∈ parts, ∃ buffer, emission.assembleTo depth part.1 = .ok buffer ∧
      buffer.entries.toList = part.2) (out : Buffer) :
    ∃ last, emission.gather depth out (parts.map Prod.fst) = .ok last ∧
      last.nesting = out.nesting ∧
      last.entries.toList = out.entries.toList ++ parts.flatMap Prod.snd := by
  -- the lines so far are general, as each child adds its own to them
  induction parts generalizing out with
  | nil => exact ⟨out, rfl, rfl, by simp⟩
  | cons part parts ih =>
      obtain ⟨buffer, hbuffer, hentries⟩ := h part List.mem_cons_self
      obtain ⟨last, hlast, hnesting, hlines⟩ :=
        ih (fun part hpart => h part (List.mem_cons_of_mem _ hpart)) (out.append buffer)
      refine ⟨last, ?_, by simpa using hnesting, by simpa [hentries] using hlines⟩
      rw [List.map_cons, gather, List.foldlM_cons, hbuffer]
      exact hlast

/-- The children of a node are assembled, context by context. -/
def Gathers (emission : Emission) (depth : Nat) (node : Node) (gathered : Context → List Entry) :
    Prop :=
  ∀ context ids, node.body.children? context = some ids → ∀ out : Buffer,
    ∃ last, emission.gather depth out ids = .ok last ∧ last.nesting = out.nesting ∧
      last.entries.toList = out.entries.toList ++ gathered context

theorem assembleTo_of_gathers {id depth : Nat} {node : Node} {gathered : Context → List Entry}
    (hnode : emission.nodes[id]? = some node) (h : Gathers emission depth node gathered) :
    ∃ buffer, emission.assembleTo (depth + 1) id = .ok buffer ∧
      buffer.entries.toList = layout emission.options id node gathered := by
  have hok {α β : Type} (value : α) (next : α → Except Error β) :
      (Except.ok value >>= next) = next value := rfl
  rw [assembleTo, node_of_some hnode, hok]
  simp only [← gather_eq]
  obtain ⟨parent, base, nesting, body⟩ := node
  -- each context is gathered into the buffer that the one before has left, in the order of
  -- `layout`; the nesting of the buffer is carried along, as the own lines stand at it
  cases body with
  | leaf sort buffer => exact ⟨buffer, rfl, rfl⟩
  | file data code =>
      obtain ⟨out, hdata, hnesting, hentries⟩ :=
        h .fileData data rfl ((Buffer.empty base).addAll (fileHead emission.options))
      obtain ⟨last, hcode, hlast, hlines⟩ := h .fileCode code rfl (out.add (.directive ".code"))
      refine ⟨last.add (.fileEnd emission.options.entryPoint), ?_, ?_⟩
      · simp only [hdata, hcode, hok]
        rfl
      · simp [layout, hlines, hentries, hlast, hnesting, Buffer.empty]
  | function header body frame =>
      obtain ⟨out, hheader, hnesting, hentries⟩ := h .functionHeader header rfl
        (((Buffer.empty base).add (.proc frame.name)).enter.addAll (prologue frame))
      obtain ⟨last, hbody, hlast, hlines⟩ := h .functionBody body rfl out
      refine ⟨Buffer.add { last.addAll (epilogue frame) with nesting := base }
        (.endp frame.name), ?_, ?_⟩
      · simp only [hheader, hbody, hok]
        rfl
      · simp [layout, hlines, hentries, hlast, hnesting, Buffer.empty, Buffer.enter]
  | conditional condition thenPart elsePart =>
      obtain ⟨tested, hcondition, hnesting₁, hentries₁⟩ :=
        h .ifCondition condition rfl (.empty base)
      obtain ⟨chosen, hthen, hnesting₂, hentries₂⟩ := h .ifThen thenPart rfl
        (tested.addAll (jumpIfZero (nameOf .conditional id ++ "_" ++ "else")))
      obtain ⟨last, helse, hnesting₃, hentries₃⟩ := h .ifElse elsePart rfl
        (chosen.addAll [.jmp (nameOf .conditional id ++ "_" ++ "endif"),
          .label (nameOf .conditional id ++ "_" ++ "else")])
      refine ⟨last.add (.label (nameOf .conditional id ++ "_" ++ "endif")), ?_, ?_⟩
      · simp only [Node.kind, Body.kind, hcondition, hthen, helse, hok]
        rfl
      · simp [layout, Node.kind, Body.kind, hentries₁, hentries₂, hentries₃, hnesting₁,
          hnesting₂, hnesting₃, Buffer.empty]
  | loop condition body =>
      obtain ⟨tested, hcondition, hnesting₁, hentries₁⟩ := h .whileCondition condition rfl
        ((Buffer.empty base).add (.label (nameOf .loop id ++ "_" ++ "loop")))
      obtain ⟨last, hbody, hnesting₂, hentries₂⟩ := h .whileBody body rfl
        (tested.addAll (jumpIfZero (nameOf .loop id ++ "_" ++ "end")))
      refine ⟨last.addAll [.jmp (nameOf .loop id ++ "_" ++ "loop"),
        .label (nameOf .loop id ++ "_" ++ "end")], ?_, ?_⟩
      · simp only [Node.kind, Body.kind, hcondition, hbody, hok]
        rfl
      · simp [layout, Node.kind, Body.kind, hentries₁, hentries₂, hnesting₁, hnesting₂,
          Buffer.empty]
  | compound body =>
      obtain ⟨last, hbody, -, hentries⟩ := h .compoundBody body rfl (.empty base)
      exact ⟨last, hbody, by simp [layout, hentries]⟩

/-- The children of a node have larger numbers, so that there is depth left for them. -/
theorem assembleTo_of_lays {id depth : Nat} {entries : List Entry} (h : Lays emission id entries)
    (hdepth : emission.nodes.size ≤ id + depth) :
    ∃ buffer, emission.assembleTo depth id = .ok buffer ∧ buffer.entries.toList = entries := by
  induction h generalizing depth with
  | @intro id node hnode parts hids hlater hparts ih =>
      have hlt := lt_size_of_some hnode
      -- the node is there, so that some depth is left for its children
      obtain ⟨depth, rfl⟩ : ∃ rest, depth = rest + 1 := ⟨depth - 1, by omega⟩
      apply assembleTo_of_gathers hnode
      intro context ids hcontext out
      rw [hids context ids hcontext]
      refine gather_of_ok (parts context) (fun part hpart => ?_) out
      have := hlater context part hpart
      exact ih context part hpart (by omega)

/-- A node with lines is assembled, and these are its lines. -/
theorem assemble_of_lays {id : Nat} {entries : List Entry} (h : Lays emission id entries) :
    ∃ buffer, emission.assemble id = .ok buffer ∧ buffer.entries.toList = entries :=
  assembleTo_of_lays h (Nat.le_add_left _ _)

/-! ## What the lines depend on -/

/-- From a number on, nodes have the same bases and bodies. -/
def AgreeFrom (first : Nat) (before after : Emission) : Prop :=
  ∀ id node, first ≤ id → before.nodes[id]? = some node →
    ∃ other, after.nodes[id]? = some other ∧ other.base = node.base ∧ other.body = node.body

theorem AgreeFrom.trans {first : Nat} {before middle after : Emission}
    (h : AgreeFrom first before middle) (hmore : AgreeFrom first middle after) :
    AgreeFrom first before after := by
  intro id node hfirst hnode
  obtain ⟨other, hother, hbase, hbody⟩ := h id node hfirst hnode
  obtain ⟨last, hlast, hlastBase, hlastBody⟩ := hmore id other hfirst hother
  exact ⟨last, hlast, hlastBase.trans hbase, hlastBody.trans hbody⟩

theorem layout_congr {options : Asm.Options} {id : Nat} {node other : Node}
    (hbase : other.base = node.base) (hbody : other.body = node.body)
    (gathered : Context → List Entry) :
    layout options id other gathered = layout options id node gathered := by
  simp only [layout, Node.kind, hbase, hbody]

theorem Lays.lt_size {id : Nat} {entries : List Entry} (h : Lays emission id entries) :
    id < emission.nodes.size := by
  cases h with
  | intro hnode => exact lt_size_of_some hnode

theorem Lays.congr {first id : Nat} {entries : List Entry} (h : Lays before id entries)
    (hoptions : after.options = before.options) (agree : AgreeFrom first before after)
    (hfirst : first ≤ id) : Lays after id entries := by
  induction h with
  | @intro id node hnode parts hids hlater hparts ih =>
      obtain ⟨other, hother, hbase, hbody⟩ := agree id node hfirst hnode
      rw [← layout_congr hbase hbody, ← hoptions]
      refine .intro hother parts ?_ hlater fun context part hpart => ?_
      · rw [hbody]
        exact hids
      -- a child comes after the node, and so after `first`
      · exact ih context part hpart
          (Nat.le_of_lt (Nat.lt_of_le_of_lt hfirst (hlater context part hpart)))

theorem LaysAll.congr {first parent : Nat} {ids : List Nat} {entries : List Entry}
    (h : LaysAll before parent ids entries) (hoptions : after.options = before.options)
    (agree : AgreeFrom first before after) (hfirst : first ≤ parent + 1) :
    LaysAll after parent ids entries := by
  obtain ⟨parts, hids, hentries, hparts⟩ := h
  refine ⟨parts, hids, hentries, ?_⟩
  intro part hpart
  obtain ⟨hlater, hlays⟩ := hparts part hpart
  exact ⟨hlater, hlays.congr hoptions agree (by omega)⟩

namespace LaysAll

variable {parent : Nat} {ids more : List Nat} {entries lines : List Entry}

@[simp] theorem nil : LaysAll emission parent [] [] := ⟨[], rfl, rfl, by simp⟩

theorem single {id : Nat} (hlater : parent < id) (h : Lays emission id entries) :
    LaysAll emission parent [id] entries :=
  ⟨[(id, entries)], rfl, by simp, by simpa using ⟨hlater, h⟩⟩

theorem append (h : LaysAll emission parent ids entries)
    (hmore : LaysAll emission parent more lines) :
    LaysAll emission parent (ids ++ more) (entries ++ lines) := by
  obtain ⟨parts, rfl, rfl, hparts⟩ := h
  obtain ⟨rest, rfl, rfl, hrest⟩ := hmore
  refine ⟨parts ++ rest, by simp, by simp, ?_⟩
  intro part hpart
  exact (List.mem_append.mp hpart).elim (hparts part) (hrest part)

end LaysAll

/-! ## The lines of each kind of node -/

section Kinds

variable {id : Nat} {node : Node} (hnode : emission.nodes[id]? = some node)
include hnode

theorem lays_of_children (gathered : Context → List Entry)
    (h : ∀ context,
      LaysAll emission id ((node.body.children? context).getD []) (gathered context)) :
    Lays emission id (layout emission.options id node gathered) := by
  -- `Lays` asks for the parts of all contexts as one function
  obtain ⟨parts, hparts⟩ := Classical.axiomOfChoice h
  have hgathered : gathered = fun context => (parts context).flatMap Prod.snd :=
    funext fun context => (hparts context).2.1
  rw [hgathered]
  refine .intro hnode parts (fun context ids hids => ?_)
    (fun context part hpart => ((hparts context).2.2 part hpart).1)
    fun context part hpart => ((hparts context).2.2 part hpart).2
  rw [← (hparts context).1, hids, Option.getD_some]

theorem lays_leaf {sort : Leaf} {buffer : Buffer} (hbody : node.body = .leaf sort buffer) :
    Lays emission id buffer.entries.toList := by
  have h := lays_of_children hnode (fun _ => []) fun context => by
    rw [hbody]
    exact .nil
  simpa [layout, hbody] using h

theorem lays_compound {ids : List Nat} {entries : List Entry} (hbody : node.body = .compound ids)
    (h : LaysAll emission id ids entries) : Lays emission id entries := by
  have h := lays_of_children hnode
    (fun | .compoundBody => entries
         | _ => [])
    fun context => by
      rw [hbody]
      cases context <;> first | exact h | exact .nil
  simpa [layout, hbody] using h

theorem lays_conditional {condition thenPart elsePart : List Nat}
    {tested chosen other : List Entry}
    (hbody : node.body = .conditional condition thenPart elsePart)
    (hcondition : LaysAll emission id condition tested)
    (hthen : LaysAll emission id thenPart chosen)
    (helse : LaysAll emission id elsePart other) :
    Lays emission id
      (tested ++ (jumpIfZero (nameOf .conditional id ++ "_" ++ "else")).map (Entry.mk node.base) ++
        chosen ++ [Instruction.jmp (nameOf .conditional id ++ "_" ++ "endif"),
          .label (nameOf .conditional id ++ "_" ++ "else")].map (Entry.mk node.base) ++ other ++
        [Instruction.label (nameOf .conditional id ++ "_" ++ "endif")].map
          (Entry.mk node.base)) := by
  have h := lays_of_children hnode
    (fun | .ifCondition => tested
         | .ifThen => chosen
         | .ifElse => other
         | _ => [])
    fun context => by
      rw [hbody]
      cases context <;> first | exact hcondition | exact hthen | exact helse | exact .nil
  simpa [layout, hbody, Node.kind, Body.kind] using h

theorem lays_loop {condition body : List Nat} {tested repeated : List Entry}
    (hbody : node.body = .loop condition body)
    (hcondition : LaysAll emission id condition tested)
    (hrepeat : LaysAll emission id body repeated) :
    Lays emission id
      ([Instruction.label (nameOf .loop id ++ "_" ++ "loop")].map (Entry.mk node.base) ++ tested ++
        (jumpIfZero (nameOf .loop id ++ "_" ++ "end")).map (Entry.mk node.base) ++ repeated ++
        [Instruction.jmp (nameOf .loop id ++ "_" ++ "loop"),
          .label (nameOf .loop id ++ "_" ++ "end")].map (Entry.mk node.base)) := by
  have h := lays_of_children hnode
    (fun | .whileCondition => tested
         | .whileBody => repeated
         | _ => [])
    fun context => by
      rw [hbody]
      cases context <;> first | exact hcondition | exact hrepeat | exact .nil
  simpa [layout, hbody, Node.kind, Body.kind] using h

theorem lays_function {header body : List Nat} {frame : Frame} {comments lines : List Entry}
    (hbody : node.body = .function header body frame)
    (hheader : LaysAll emission id header comments) (hlines : LaysAll emission id body lines) :
    Lays emission id
      ([Instruction.proc frame.name].map (Entry.mk node.base) ++
        (prologue frame).map (Entry.mk (node.base + 1)) ++ comments ++ lines ++
        (epilogue frame).map (Entry.mk (node.base + 1)) ++
        [Instruction.endp frame.name].map (Entry.mk node.base)) := by
  have h := lays_of_children hnode
    (fun | .functionHeader => comments
         | .functionBody => lines
         | _ => [])
    fun context => by
      rw [hbody]
      cases context <;> first | exact hheader | exact hlines | exact .nil
  simpa [layout, hbody] using h

theorem lays_file {data code : List Nat} {dataLines functions : List Entry}
    (hbody : node.body = .file data code) (hdata : LaysAll emission id data dataLines)
    (hcode : LaysAll emission id code functions) :
    Lays emission id
      ((fileHead emission.options).map (Entry.mk node.base) ++ dataLines ++
        [Instruction.directive ".code"].map (Entry.mk node.base) ++ functions ++
        [Instruction.fileEnd emission.options.entryPoint].map (Entry.mk node.base)) := by
  have h := lays_of_children hnode
    (fun | .fileData => dataLines
         | .fileCode => functions
         | _ => [])
    fun context => by
      rw [hbody]
      cases context <;> first | exact hdata | exact hcode | exact .nil
  simpa [layout, hbody] using h

end Kinds

end MiniC.Emission
