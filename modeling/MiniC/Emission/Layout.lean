import MiniC.Emission.Basic

/-!
# Layout of emissions

Assembling a node gives its lines: a leaf has its own, and a composite lays
directives, labels and jumps around the lines of its contexts.  Labels start
with the name of the composite, so that no two composites share one.
-/

namespace MiniC.Emission

open Asm (Buffer Instruction)

/-- The directives before the data section. -/
def fileHead (options : Asm.Options) : List Instruction :=
  [.directive options.processor, .directive (".model " ++ options.memoryModel),
    .directive (".stack " ++ toString options.stackSize.toNat), .directive ".data"]

/-- The instructions that set up the frame of a function. -/
def prologue (frame : Frame) : List Instruction :=
  [.push Asm.Register.ebp, .mov Asm.Register.ebp Asm.Register.esp] ++
    if 0 < frame.localBytes then [.sub .esp (.immediate frame.localBytes)] else []

/-- The instructions that a function ends with, after the label that returns
jump to. -/
def epilogue (frame : Frame) : List Instruction :=
  [.label frame.exitLabel, .mov Asm.Register.esp Asm.Register.ebp, .pop .ebp, .ret]

/-- Jumps to a label if `eax` is zero. -/
def jumpIfZero (label : String) : List Instruction :=
  [.cmp Asm.Register.eax (.immediate 0), .jcc .e label]

variable (emission : Emission)

/-- The lines of a node, for a node with less than a number of levels of
others below it. -/
def assembleTo : Nat → Id → Except Error Buffer
  | 0, id => do
      throw (Misuse.cyclic (← emission.name id)).toError
  | depth + 1, id => do
      let node ← emission.node id
      let label (suffix : String) := nameOf node.kind id ++ "_" ++ suffix
      let gather (out : Buffer) (ids : List Id) : Except Error Buffer :=
        ids.foldlM (fun out child => return out.append (← assembleTo depth child)) out
      let out := Buffer.empty node.base
      match node.body with
      | .leaf _ buffer => return buffer
      | .file data code =>
          let out ← gather (out.addAll (fileHead emission.options)) data
          let out ← gather (out.add (.directive ".code")) code
          return out.add (.fileEnd emission.options.entryPoint)
      | .function header body frame =>
          let out ← gather ((out.add (.proc frame.name)).enter.addAll (prologue frame)) header
          let out := (← gather out body).addAll (epilogue frame)
          -- the end of the procedure stands at the level of its start
          return { out with nesting := node.base }.add (.endp frame.name)
      | .conditional condition thenPart elsePart =>
          let out := (← gather out condition).addAll (jumpIfZero (label "else"))
          let out ← gather out thenPart
          let out ← gather (out.addAll [.jmp (label "endif"), .label (label "else")]) elsePart
          return out.add (.label (label "endif"))
      | .loop condition body =>
          let out ← gather (out.add (.label (label "loop"))) condition
          let out ← gather (out.addAll (jumpIfZero (label "end"))) body
          return out.addAll [.jmp (label "loop"), .label (label "end")]
      | .compound body => gather out body

/-- The lines of a node.  In an emission where no node is below itself, there
are fewer levels than nodes. -/
def assemble (id : Id) : Except Error Buffer := emission.assembleTo emission.nodes.size id

/-- The text of the file. -/
def text : Except Error String := do
  return (← emission.assemble fileId).text emission.options.style

end MiniC.Emission
