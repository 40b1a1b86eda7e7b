import MiniC.Proofs.Asm.Histories

/-!
# Buffers after any operations

The text of a buffer has one form, whatever was done to the buffer: it is the lines that its
history records, each indented to the level at which it was added and ended in the same way.
Nothing else is in it, so that it can be read back: its lines, trimmed, are the contents, and
code that is given as the text of a buffer is the code that was added to the buffer
(`text_of_history`).
-/

namespace MiniC

open Asm (Buffer Line Style written)

/-- **The text of a buffer is its history, written down, and no information but the levels is
lost by writing it.**  The operations on the buffer may be any, those that fail included, and so
may those that made the buffers appended to it. -/
theorem text_of_history (style : Style) (nesting : Nat) (operations : List Buffer.Operation) :
    let buffer := (Buffer.empty nesting).afterAll operations
    let lines := Buffer.recordedAll nesting operations
    -- the text is made of the lines that the history records
    buffer.text style = written style lines ∧
    (∀ line ∈ lines, line.content ≠ "" ∧
      (∀ c ∈ line.content.toList, c ≠ '\n' ∧ c ≠ '\r') ∧
      ∀ c, line.content.toList.head? = some c → Text.isBlank c = false) ∧
    -- its lines, trimmed, are the contents
    (Text.lines (buffer.text style)).map Text.trim =
      lines.map (fun line => Text.trim line.content.toList) ∧
    buffer.contents = ((Text.lines (buffer.text style)).map Text.trim).map String.ofList ∧
    -- added as code to another buffer it makes the same lines, at the level of that buffer
    (∀ (other : Buffer) (otherStyle : Style),
      (other.addCode (buffer.text style)).text otherStyle = other.text otherStyle ++
        written otherStyle (lines.map fun line => ⟨other.nesting, line.content⟩) ∧
      (other.absorb buffer).text otherStyle =
        (other.addCode (buffer.text style)).text otherStyle) ∧
    ((∀ line ∈ lines, line.level = nesting) →
      ((Buffer.empty nesting).addCode (buffer.text style)).text style = buffer.text style) := by
  intro buffer lines
  have hlines : buffer.lines = lines := Buffer.lines_history nesting operations
  have hline : ∀ line ∈ lines, Text.IsLine line.content := by
    intro line hmem
    rw [← hlines] at hmem
    exact buffer.isLine_of_mem_lines hmem
  have htext : buffer.text style = written style lines := by
    rw [Buffer.text_eq_written, hlines]
  have hadded : ∀ (other : Buffer) (otherStyle : Style),
      (other.addCode (buffer.text style)).text otherStyle = other.text otherStyle ++
        written otherStyle (lines.map fun line => ⟨other.nesting, line.content⟩) := by
    intro other otherStyle
    rw [Buffer.text_eq_written, Buffer.lines_addCode_text, Buffer.lines_absorb, hlines,
      Asm.written_append, ← Buffer.text_eq_written]
  have htrimmed : (Text.lines (buffer.text style)).map Text.trim =
      lines.map fun line => Text.trim line.content.toList := by
    rw [htext, Asm.lines_written style hline]
  refine ⟨htext, ?_, htrimmed, ?_, ?_, ?_⟩
  · intro line hmem
    exact (hline line hmem).spelledOut
  · rw [Buffer.contents, hlines, htrimmed, List.map_map]
    rfl
  · intro other otherStyle
    refine ⟨hadded other otherStyle, ?_⟩
    rw [Buffer.text_eq_written, Buffer.text_eq_written, Buffer.lines_addCode_text]
  · intro hlevel
    have hsame : lines.map (fun line => (⟨nesting, line.content⟩ : Line)) = lines := by
      refine (List.map_congr_left fun line hmem => ?_).trans (List.map_id lines)
      rw [← hlevel line hmem]
      rfl
    calc ((Buffer.empty nesting).addCode (buffer.text style)).text style
        = "" ++ written style (lines.map fun line => ⟨nesting, line.content⟩) :=
          hadded (Buffer.empty nesting) style
      _ = written style lines := by rw [hsame, String.empty_append]
      _ = buffer.text style := htext.symm

/-! ## A history -/

namespace Sample

/-- Code with line breaks and blanks of several sorts, some levels that are left in vain, and a
buffer that is appended. -/
def history : List Buffer.Operation :=
  [.addCode "mov eax, 1\r\n\u00a0 ; a \u0085\n \u3000\n\rret", .enter, .leave "f", .leave "f",
    .leave "f", .append 3 [.addCode "\tpush eax"], .enter, .add (.comment "b\nc")]

/-- Code that is all added at one level. -/
def level : List Buffer.Operation := [.addCode "  cdq\n\n\u2028idiv ebx\r", .add .ret]

end Sample

/-- The lines of a history, and a buffer that is read back as it was. -/
theorem text_of_history_sample :
    ((Buffer.empty 1).afterAll Sample.history).text ⟨.spaces 2, .crlf⟩ =
        "  mov eax, 1\r\n  ; a \u0085\r\n  ret\r\n      push eax\r\n  ; b\r\n  c\r\n" ∧
      ((Buffer.empty 2).addCode
        (((Buffer.empty 2).afterAll Sample.level).text ⟨.tabs, .crlf⟩)).text ⟨.tabs, .crlf⟩ =
        ((Buffer.empty 2).afterAll Sample.level).text ⟨.tabs, .crlf⟩ := by
  refine ⟨(text_of_history ⟨.spaces 2, .crlf⟩ 1 Sample.history).1.trans (by decide +kernel), ?_⟩
  exact (text_of_history ⟨.tabs, .crlf⟩ 2 Sample.level).2.2.2.2.2 (by decide +kernel)

end MiniC
