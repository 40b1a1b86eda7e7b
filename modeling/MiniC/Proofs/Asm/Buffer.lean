import MiniC.Asm.Buffer

/-!
# The text of buffers

Code may be passed on as the text of a buffer, which is split into lines again and
indented anew.  Nothing is lost on the way: adding the text of a buffer, however it
is written, makes the same lines as absorbing the buffer (`lines_addCode_text`).
-/

namespace MiniC

namespace Text

variable {content : String}

/-- What the lines of a buffer say: not blank throughout, not blank at the start and
without line breaks. -/
structure IsLine (content : String) : Prop where
  head : ∃ c rest, content.toList = c :: rest ∧ isBlank c = false
  unbroken : ∀ c ∈ content.toList, isBreak c = false

/-- A line is not empty, breaks nowhere and does not start with a blank. -/
theorem IsLine.spelledOut (h : IsLine content) :
    content ≠ "" ∧ (∀ c ∈ content.toList, c ≠ '\n' ∧ c ≠ '\r') ∧
      ∀ c, content.toList.head? = some c → isBlank c = false := by
  obtain ⟨first, rest, hchars, hfirst⟩ := h.head
  refine ⟨?_, ?_, ?_⟩
  · rintro rfl
    cases hchars
  · intro c hc
    simpa [isBreak] using h.unbroken c hc
  · intro c hc
    rw [hchars] at hc
    cases hc
    exact hfirst

theorem isLine_of_mem_contents {text : String} (h : content ∈ contents text) : IsLine content := by
  obtain ⟨piece, hpiece, hcontent⟩ := List.mem_filterMap.mp h
  split at hcontent
  next => cases hcontent
  next chars hne =>
    obtain rfl := Option.some.inj hcontent
    obtain ⟨c, rest, hchars⟩ := List.exists_cons_of_ne_nil hne
    refine ⟨⟨c, rest, by simpa using hchars, isBlank_head_trimStart hchars⟩, ?_⟩
    intro d hd
    rw [String.toList_ofList] at hd
    exact isSeparator_of_mem_split hpiece d ((List.dropWhile_sublist isBlank).subset hd)

theorem split_of_unbroken {isSeparator : Char → Bool} {chars : List Char}
    (h : ∀ c ∈ chars, isSeparator c = false) : split isSeparator chars = [chars] := by
  induction chars with
  | nil => rfl
  | cons c rest ih =>
      rw [split, ih fun d hd => h d (List.mem_cons_of_mem c hd)]
      simp [h c List.mem_cons_self]

/-- Blanks before a line do not count. -/
theorem trimStart_append {blanks : List Char} (hblanks : ∀ c ∈ blanks, isBlank c = true)
    (h : IsLine content) : trimStart (blanks ++ content.toList) = content.toList := by
  obtain ⟨c, rest, hchars, hc⟩ := h.head
  rw [trimStart, List.dropWhile_append_of_pos hblanks, hchars,
    List.dropWhile_cons_of_neg (by simp [hc])]

/-- The line that a piece of a text makes, if it is not blank. -/
def contentOf? (piece : List Char) : Option String :=
  match trimStart piece with
  | [] => none
  | chars => some (String.ofList chars)

theorem contents_eq (text : String) :
    contents text = (split isBreak text.toList).filterMap contentOf? := rfl

/-- The contents of a text that starts with a line. -/
theorem contents_line {blanks : String} (hblanks : ∀ c ∈ blanks.toList,
    isBlank c = true ∧ isBreak c = false) (h : IsLine content) (ending : Asm.LineEnding)
    (rest : String) : contents (blanks ++ content ++ ending.text ++ rest) =
      content :: contents rest := by
  have hpiece : split isBreak (blanks.toList ++ content.toList) =
      [blanks.toList ++ content.toList] :=
    split_of_unbroken fun c hc => (List.mem_append.mp hc).elim (fun hc => (hblanks c hc).2)
      (h.unbroken c)
  have htrim : trimStart (blanks.toList ++ content.toList) = content.toList :=
    trimStart_append (fun c hc => (hblanks c hc).1) h
  have hkept : contentOf? (blanks.toList ++ content.toList) = some content := by
    obtain ⟨c, chars, hchars, -⟩ := h.head
    rw [contentOf?, htrim, hchars]
    show some (String.ofList (c :: chars)) = _
    rw [← hchars, String.ofList_toList]
  have hfirst (tail : List Char) (d : Char) (hd : isBreak d = true) :
      split isBreak ((blanks ++ content).toList ++ d :: tail) =
        (blanks.toList ++ content.toList) :: split isBreak tail := by
    rw [String.toList_append, split_append_cons hd, hpiece]
    rfl
  rw [contents_eq, String.toList_append, String.toList_append, List.append_assoc]
  -- a CR LF makes an empty piece between the two breaks, which is no content
  cases ending with
  | lf =>
      show List.filterMap _ (split isBreak (_ ++ '\n' :: rest.toList)) = _
      rw [hfirst _ _ rfl, List.filterMap_cons_some hkept]
      rfl
  | crlf =>
      show List.filterMap _ (split isBreak (_ ++ '\r' :: ([] ++ '\n' :: rest.toList))) = _
      rw [hfirst _ _ rfl, List.filterMap_cons_some hkept, split_append_cons (by rfl)]
      rfl

end Text

namespace Asm

theorem isBlank_of_mem_indent {indent : Indent} {level : Nat} {c : Char}
    (h : c ∈ (indent.text level).toList) : Text.isBlank c = true ∧ Text.isBreak c = false := by
  cases indent <;>
  · rw [Indent.text, String.toList_ofList] at h
    obtain rfl := List.eq_of_mem_replicate h
    decide

/-- Lines as they are written in a style: each is indented by the unit of the style once
for each level, and ended. -/
def written (style : Style) (lines : List Line) : String :=
  String.join (lines.map fun line =>
    String.join (List.replicate line.level style.indent.unit) ++ line.content ++ style.ending.text)

/-- An indentation is its unit, once for each level. -/
theorem Indent.text_eq_units (indent : Indent) (level : Nat) :
    indent.text level = String.join (List.replicate level indent.unit) := by
  rw [← String.toList_inj, String.toList_join, List.flatMap_replicate]
  cases indent with
  | tabs => simp [Indent.text, Indent.unit]
  | spaces count => simp [Indent.text, Indent.unit]

theorem written_append (style : Style) (front back : List Line) :
    written style (front ++ back) = written style front ++ written style back := by
  rw [written, List.map_append, String.join_append]
  rfl

namespace Buffer

variable (style : Style) (buffer other : Buffer)

theorem text_eq_join : buffer.text style = String.join (buffer.lines.map (Line.text style)) := by
  rw [text, String.join, List.foldl_map]

theorem text_eq_written : buffer.text style = written style buffer.lines := by
  unfold written
  rw [text_eq_join]
  congr 2
  funext line
  rw [Line.text, Indent.text_eq_units]

/-- Splitting the text of lines gives the lines. -/
theorem contents_join {lines : List Line} (h : ∀ line ∈ lines, Text.IsLine line.content) :
    Text.contents (String.join (lines.map (Line.text style))) = lines.map (·.content) := by
  induction lines with
  | nil => rfl
  | cons line lines ih =>
      rw [List.map_cons, String.join_cons, Line.text,
        Text.contents_line (fun _ hc => isBlank_of_mem_indent hc) (h line List.mem_cons_self),
        ih fun line hline => h line (List.mem_cons_of_mem _ hline), List.map_cons]

theorem isLine_of_mem_lines {line : Line} (h : line ∈ buffer.lines) : Text.IsLine line.content := by
  obtain ⟨entry, -, hline⟩ := List.mem_flatMap.mp h
  obtain ⟨content, hcontent, rfl⟩ := List.mem_map.mp hline
  exact Text.isLine_of_mem_contents hcontent

theorem lines_absorb : (buffer.absorb other).lines =
    buffer.lines ++ other.lines.map fun line => ⟨buffer.nesting, line.content⟩ := by
  simp [lines, instructions, Entry.lines, List.map_flatMap, List.flatMap_map, Function.comp_def]

/-- Adding the text of a buffer is absorbing the buffer. -/
theorem lines_addCode_text :
    (buffer.addCode (other.text style)).lines = (buffer.absorb other).lines := by
  have hcontents : Text.contents (other.text style) = other.lines.map (·.content) := by
    rw [text_eq_join]
    exact contents_join style fun _ hline => other.isLine_of_mem_lines hline
  have hadd : (buffer.addCode (other.text style)).lines =
      buffer.lines ++ (Text.contents (other.text style)).map (Line.mk buffer.nesting) := by
    simp [lines, addCode, Entry.lines, Instruction.text]
  -- the levels of the other buffer are lost on both ways, only its contents are kept
  rw [hadd, hcontents, lines_absorb, List.map_map]
  rfl

end Buffer

end Asm

end MiniC
