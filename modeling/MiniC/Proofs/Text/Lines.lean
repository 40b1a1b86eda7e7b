import MiniC.Proofs.Asm.Buffer

/-!
# Pieces and lines of a text

Two ways to take a text apart.  The pieces of a text stand between its line breaks of
either sort, and count only if they hold more than blanks (`contents_eq_pieces`).  The lines
of a text stand before its line feeds, whether or not a carriage return comes just before
them, so that a file is taken apart in the same way whatever its line ending
(`lines_line`).
-/

namespace MiniC.Text

/-- The stretches of a text between line breaks that are not blank throughout, without
the blanks at their start. -/
def pieces (text : String) : List String :=
  (((text.toList.splitOnP isBreak).map (List.dropWhile isBlank)).filter (!·.isEmpty)).map
    String.ofList

theorem contents_eq_pieces (text : String) : contents text = pieces text := by
  rw [contents_eq, split_eq_splitOnP, pieces]
  generalize text.toList.splitOnP isBreak = stretches
  induction stretches with
  | nil => rfl
  | cons stretch stretches ih =>
      cases htrim : stretch.dropWhile isBlank with
      | nil =>
          have hblank : contentOf? stretch = none := by
            rw [contentOf?, trimStart, htrim]
          rw [List.filterMap_cons_none hblank, ih, List.map_cons, htrim,
            List.filter_cons_of_neg (by simp)]
      | cons c rest =>
          have hkept : contentOf? stretch = some (String.ofList (c :: rest)) := by
            rw [contentOf?, trimStart, htrim]
          rw [List.filterMap_cons_some hkept, ih, List.map_cons, htrim,
            List.filter_cons_of_pos (by simp), List.map_cons]

/-! ## Lines -/

/-- A line without the carriage return before its line feed. -/
def dropReturn (line : List Char) : List Char :=
  if line.getLast? = some '\r' then line.dropLast else line

/-- The lines between line feeds.  What comes after the last line feed is a line of its
own if there is anything. -/
def endedLines : List (List Char) → List (List Char)
  | [] => []
  | [last] => if last.isEmpty then [] else [last]
  | line :: lines => dropReturn line :: endedLines lines

/-- The lines of a text, each without its line feed or carriage return and line feed. -/
def lines (text : String) : List (List Char) :=
  endedLines (text.toList.splitOnP (· == '\n'))

theorem endedLines_cons (line : List Char) {others : List (List Char)} (h : others ≠ []) :
    endedLines (line :: others) = dropReturn line :: endedLines others := by
  cases others with
  | nil => exact absurd rfl h
  | cons other others => rfl

/-- The first line of a text that starts with an unbroken line and its ending. -/
theorem lines_line {line : String} (h : ∀ c ∈ line.toList, isBreak c = false)
    (ending : Asm.LineEnding) (rest : String) :
    lines (line ++ ending.text ++ rest) = line.toList :: lines rest := by
  have hfeed : ∀ front : List Char, (∀ c ∈ front, (c == '\n') = false) →
      endedLines ((front ++ '\n' :: rest.toList).splitOnP (· == '\n')) =
        dropReturn front :: lines rest := by
    intro front hfront
    rw [List.splitOnP_append_cons front rest.toList (by rfl), List.splitOnP_eq_singleton hfront,
      List.singleton_append, endedLines_cons _ (List.splitOnP_ne_nil _ _), lines]
  have hline : ∀ c ∈ line.toList, c ≠ '\n' ∧ c ≠ '\r' := by
    intro c hc
    simpa [isBreak] using h c hc
  rw [lines, String.toList_append, String.toList_append, List.append_assoc]
  cases ending with
  | lf =>
      refine (hfeed line.toList fun c hc => by simpa using (hline c hc).1).trans ?_
      -- the last character of the line is no carriage return that could be taken for its ending
      have hkept : line.toList.getLast? ≠ some '\r' := fun hlast =>
        (hline '\r' (List.mem_of_getLast? hlast)).2 rfl
      rw [dropReturn, if_neg hkept]
  | crlf =>
      have hfront : ∀ c ∈ line.toList ++ ['\r'], (c == '\n') = false := by
        intro c hc
        rcases List.mem_append.mp hc with hc | hc
        · simpa using (hline c hc).1
        · rw [List.mem_singleton.mp hc]
          rfl
      have hsplit : line.toList ++ (Asm.LineEnding.crlf.text.toList ++ rest.toList) =
          (line.toList ++ ['\r']) ++ '\n' :: rest.toList := by
        rw [List.append_assoc]
        rfl
      rw [hsplit, hfeed _ hfront, dropReturn, if_pos List.getLast?_concat, List.dropLast_concat]

end MiniC.Text
