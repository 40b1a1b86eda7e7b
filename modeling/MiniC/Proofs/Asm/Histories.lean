import MiniC.Proofs.Text.Lines

/-!
# Buffers and their histories

A buffer after a list of operations, one of which may be to append another buffer that was
made in the same way.  `recordedAll` says what such a history adds without a look at the
buffer: the pieces of each text, in order, each at the level that holds when it is added.
These are the lines of the buffer (`lines_history`).

What is written of lines can be taken apart into lines again, which need only be trimmed
(`lines_written`).
-/

namespace MiniC.Asm

namespace Buffer

/-- An operation on a buffer. -/
inductive Operation where
  | addCode (code : String)
  | add (instruction : Instruction)
  | enter
  | leave (scope : String)
  /-- Appends the buffer that operations make of an empty one at a nesting level. -/
  | append (nesting : Nat) (operations : List Operation)

mutual

/-- The buffer after an operation.  A level that cannot be left is not left. -/
def after (buffer : Buffer) : Operation → Buffer
  | .addCode code => buffer.addCode code
  | .add instruction => buffer.add instruction
  | .enter => buffer.enter
  | .leave scope => (buffer.leave scope).toOption.getD buffer
  | .append nesting operations => buffer.append (afterAll (empty nesting) operations)

/-- The buffer after operations. -/
def afterAll (buffer : Buffer) : List Operation → Buffer
  | [] => buffer
  | operation :: operations => afterAll (after buffer operation) operations

end

/-! ## What a history adds -/

/-- The nesting level after an operation at a level. -/
def Operation.levelAfter (level : Nat) : Operation → Nat
  | enter => level + 1
  | leave _ => level - 1
  | addCode _ | add _ | append _ _ => level

mutual

/-- The lines that an operation adds at a level. -/
def recorded (level : Nat) : Operation → List Line
  | .addCode code => (Text.pieces code).map (Line.mk level)
  | .add instruction => (Text.pieces instruction.text).map (Line.mk level)
  | .enter | .leave _ => []
  | .append nesting operations => recordedAll nesting operations

/-- The lines that operations add from a level on. -/
def recordedAll (level : Nat) : List Operation → List Line
  | [] => []
  | operation :: operations =>
      recorded level operation ++ recordedAll (operation.levelAfter level) operations

end

theorem nesting_after (buffer : Buffer) (operation : Operation) :
    (buffer.after operation).nesting = operation.levelAfter buffer.nesting := by
  cases operation with
  | leave scope =>
      -- a level that cannot be left is 0, which is its own predecessor
      obtain ⟨entries, nesting⟩ := buffer
      cases nesting <;> rfl
  | _ => rfl

theorem lines_add (buffer : Buffer) (instruction : Instruction) :
    (buffer.add instruction).lines =
      buffer.lines ++ (Text.pieces instruction.text).map (Line.mk buffer.nesting) := by
  simp [lines, Entry.lines, Text.contents_eq_pieces]

theorem lines_append (buffer other : Buffer) :
    (buffer.append other).lines = buffer.lines ++ other.lines := by
  simp [lines]

/-- Leaving a level adds nothing, whether there is one to leave or not. -/
theorem lines_leave (buffer : Buffer) (scope : String) :
    (buffer.after (.leave scope)).lines = buffer.lines := by
  obtain ⟨entries, nesting⟩ := buffer
  cases nesting <;> rfl

mutual

/-- An operation adds the lines that are recorded for it. -/
theorem lines_after (buffer : Buffer) : ∀ operation : Operation,
    (buffer.after operation).lines = buffer.lines ++ recorded buffer.nesting operation
  | .addCode code => by
      rw [after, recorded]
      exact buffer.lines_add (.directive code)
  | .add instruction => by
      rw [after, recorded, lines_add]
  | .enter => by
      rw [after, recorded, List.append_nil]
      rfl
  | .leave scope => by
      rw [lines_leave, recorded, List.append_nil]
  | .append nesting operations => by
      rw [after, recorded, lines_append, lines_afterAll]
      rfl

/-- Operations add the lines that are recorded for them. -/
theorem lines_afterAll (buffer : Buffer) : ∀ operations : List Operation,
    (buffer.afterAll operations).lines = buffer.lines ++ recordedAll buffer.nesting operations
  | [] => by
      rw [afterAll, recordedAll, List.append_nil]
  | operation :: operations => by
      rw [afterAll, recordedAll, lines_afterAll, lines_after, nesting_after, List.append_assoc]

end

/-- The lines of a buffer are those that its history records. -/
theorem lines_history (nesting : Nat) (operations : List Operation) :
    ((empty nesting).afterAll operations).lines = recordedAll nesting operations := by
  rw [lines_afterAll]
  rfl

end Buffer

/-! ## Taking apart what is written -/

variable {lines : List Line}

/-- A line without the blanks at its ends is its content without those at its end. -/
theorem trim_indent_append (indent : Indent) {line : Line} (h : Text.IsLine line.content) :
    Text.trim (indent.text line.level ++ line.content).toList =
      Text.trim line.content.toList := by
  have hnone : ∀ c ∈ ([] : List Char), Text.isBlank c = true := by simp
  have hstart : Text.trimStart line.content.toList = line.content.toList :=
    Text.trimStart_append hnone h
  rw [String.toList_append, Text.trim,
    Text.trimStart_append (fun c hc => (isBlank_of_mem_indent hc).1) h, Text.trim, hstart]

/-- The lines of what is written are the contents, but for the blanks at their ends. -/
theorem lines_written (style : Style) (h : ∀ line ∈ lines, Text.IsLine line.content) :
    (Text.lines (written style lines)).map Text.trim =
      lines.map fun line => Text.trim line.content.toList := by
  induction lines with
  | nil => rfl
  | cons line lines ih =>
      have hline := h line List.mem_cons_self
      -- indentation and content break nowhere, so the first break is the ending of the line
      have hunbroken : ∀ c ∈ (style.indent.text line.level ++ line.content).toList,
          Text.isBreak c = false := by
        intro c hc
        rw [String.toList_append] at hc
        rcases List.mem_append.mp hc with hc | hc
        · exact (isBlank_of_mem_indent hc).2
        · exact hline.unbroken c hc
      have hwritten : written style (line :: lines) =
          style.indent.text line.level ++ line.content ++ style.ending.text ++
            written style lines := by
        rw [written, List.map_cons, String.join_cons, Indent.text_eq_units]
        rfl
      rw [hwritten, Text.lines_line hunbroken, List.map_cons, List.map_cons,
        trim_indent_append style.indent hline,
        ih fun other hother => h other (List.mem_cons_of_mem line hother)]

end MiniC.Asm
