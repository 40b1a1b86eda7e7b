import MiniC.Proofs.Json.Tokens

/-!
# Values read back

Every value is read back from its text (`read?_pretty`), also one that holds a number or a
string that denotes nothing.

The proof is by recursion on the value.  A list in it is read item by item, and so its text
is taken apart in the same way: `itemsText` and `membersText` are what stands between
the brackets, blanks before each item included.  A reader needs no more steps than the text has
characters.
-/

namespace MiniC.Json

namespace Value

/-- Induction on a value, over the values in its containers. -/
theorem induction {motive : Value → Prop} (null : motive .null)
    (bool : ∀ value, motive (.bool value)) (number : ∀ whole, motive (.number whole))
    (string : ∀ text, motive (.string text))
    (array : ∀ items, (∀ item ∈ items, motive item) → motive (.array items))
    (object : ∀ members, (∀ member ∈ members, motive member.2) → motive (.object members)) :
    ∀ value, motive value
  | .null => null
  | .bool value => bool value
  | .number whole => number whole
  | .string text => string text
  | .array items => array items fun item _ =>
      induction null bool number string array object item
  | .object members => object members fun member _ =>
      induction null bool number string array object member.2
termination_by value => sizeOf value
decreasing_by
  · have hlt := List.sizeOf_lt_of_mem ‹item ∈ items›
    simp only [Value.array.sizeOf_spec]
    omega
  · have hlt := List.sizeOf_lt_of_mem ‹member ∈ members›
    obtain ⟨key, value⟩ := member
    simp only [Value.object.sizeOf_spec, Prod.mk.sizeOf_spec] at hlt ⊢
    omega

/-- The items of an array as they are written between its brackets. -/
def itemsText (level : Nat) : List Value → List Char
  | [] => []
  | item :: items =>
      (newLine level).toList ++ ((item.print level).toList ++ (printItems level items).toList)

/-- The members of an object as they are written between its braces. -/
def membersText (level : Nat) : List (Option String × Value) → List Char
  | [] => []
  | (key, value) :: members =>
      (newLine level).toList ++ ((printString key).toList ++ ':' :: ' ' ::
        ((value.print level).toList ++ (printMembers level members).toList))

theorem toList_printItems (level : Nat) (item : Value) (items : List Value) :
    (printItems level (item :: items)).toList = ',' :: itemsText level (item :: items) := by
  simp [printItems, itemsText]

theorem toList_printMembers (level : Nat) (member : Option String × Value)
    (members : List (Option String × Value)) :
    (printMembers level (member :: members)).toList =
      ',' :: membersText level (member :: members) := by
  simp [printMembers, membersText]

theorem toList_print_array (level : Nat) (item : Value) (items : List Value) :
    ((array (item :: items)).print level).toList =
      '[' :: (itemsText (level + 1) (item :: items) ++ ((newLine level).toList ++ [']'])) := by
  simp [print, itemsText]

theorem toList_print_object (level : Nat) (member : Option String × Value)
    (members : List (Option String × Value)) :
    ((object (member :: members)).print level).toList =
      '\x7b' :: (membersText (level + 1) (member :: members) ++
        ((newLine level).toList ++ ['\x7d'])) := by
  obtain ⟨key, value⟩ := member
  simp [print, membersText]

/-- The text of a number starts with a digit or a minus sign. -/
theorem head_printNumber (whole : Option Int) :
    ∃ c rest, (printNumber whole).toList = c :: rest ∧ (c.isDigit = true ∨ c = '-') := by
  cases whole with
  | none => exact ⟨'-', ['0'], by simp [printNumber], .inr rfl⟩
  | some value =>
      rw [printNumber]
      rcases Int.lt_or_le value 0 with hneg | hpos
      · exact ⟨_, _, Text.toList_toString_of_neg hneg, .inr rfl⟩
      · obtain ⟨c, rest, hcons⟩ := List.exists_cons_of_ne_nil
          (Nat.toDigits_ne_nil (n := value.natAbs) (b := 10))
        exact ⟨c, rest, (Text.toList_toString_of_nonneg hpos).trans hcons,
          .inl (Text.isDigit_head_of_digits hcons)⟩

/-- No number starts with a blank, a bracket, a quote or a letter. -/
theorem ne_of_startsNumber {c : Char} (h : c.isDigit = true ∨ c = '-') :
    c ∉ [' ', '\t', '\n', '\r', '\x7b', '[', ']', '"', 't', 'f', 'n'] := by
  intro hmem
  have hall : [' ', '\t', '\n', '\r', '\x7b', '[', ']', '"', 't', 'f', 'n'].all
      (fun c => !(c.isDigit || c == '-')) = true := by
    decide
  have hother := List.all_eq_true.mp hall c hmem
  rcases h with hdigit | rfl
  · rw [hdigit] at hother
    cases hother
  · cases hother

theorem isSpace_of_startsNumber {c : Char} (h : c.isDigit = true ∨ c = '-') :
    isSpace c = false := by
  have hother := ne_of_startsNumber h
  simp only [List.mem_cons, not_or] at hother
  simp [isSpace, hother]

/-- The text of a value starts neither with a blank nor with a closing bracket. -/
theorem head_print (level : Nat) (value : Value) :
    ∃ c rest, (value.print level).toList = c :: rest ∧ isSpace c = false ∧ c ≠ ']' := by
  cases value with
  | null => exact ⟨'n', ['u', 'l', 'l'], by simp [print], by decide, by decide⟩
  | bool value =>
      cases value with
      | true => exact ⟨'t', ['r', 'u', 'e'], by simp [print], by decide, by decide⟩
      | false => exact ⟨'f', ['a', 'l', 's', 'e'], by simp [print], by decide, by decide⟩
  | number whole =>
      obtain ⟨c, rest, hlist, hc⟩ := head_printNumber whole
      exact ⟨c, rest, hlist, isSpace_of_startsNumber hc,
        fun heq => ne_of_startsNumber hc (by simp [heq])⟩
  | string text =>
      obtain ⟨body, hlist, -⟩ := readString_printString text
      exact ⟨'"', body, hlist, by decide, by decide⟩
  | array items =>
      cases items with
      | nil => exact ⟨'[', [']'], by simp [print], by decide, by decide⟩
      | cons item items => exact ⟨'[', _, toList_print_array level item items, by decide, by decide⟩
  | object members =>
      cases members with
      | nil => exact ⟨'\x7b', ['\x7d'], by simp [print], by decide, by decide⟩
      | cons member members =>
          exact ⟨'\x7b', _, toList_print_object level member members, by decide, by decide⟩

end Value

open Value

/-! ## Readers pass over blanks -/

theorem readValue_skipSpace (steps : Nat) (chars : List Char) :
    readValue steps (skipSpace chars) = readValue steps chars := by
  cases steps with
  | zero => rfl
  | succ steps => rw [readValue, readValue, skipSpace_skipSpace]

theorem readArray_skipSpace (steps : Nat) (chars : List Char) (items : List Value) :
    readArray steps (skipSpace chars) items = readArray steps chars items := by
  cases steps with
  | zero => rfl
  | succ steps => rw [readArray, readArray, readValue_skipSpace]

theorem readValue_newLine (steps level : Nat) (chars : List Char) :
    readValue steps ((newLine level).toList ++ chars) = readValue steps chars := by
  rw [← readValue_skipSpace, skipSpace_newLine, readValue_skipSpace]

theorem readMembers_skipSpace (steps : Nat) (chars : List Char)
    (members : List (Option String × Value)) :
    readMembers steps (skipSpace chars) members = readMembers steps chars members := by
  cases steps with
  | zero => rfl
  | succ steps => rw [readMembers, readMembers, skipSpace_skipSpace]

/-! ## The start of a value -/

section Start

variable (steps : Nat) (rest : List Char)

theorem readValue_null :
    readValue (steps + 1) ('n' :: 'u' :: 'l' :: 'l' :: rest) = some (.null, rest) :=
  rfl

theorem readValue_true :
    readValue (steps + 1) ('t' :: 'r' :: 'u' :: 'e' :: rest) = some (.bool true, rest) :=
  rfl

theorem readValue_false :
    readValue (steps + 1) ('f' :: 'a' :: 'l' :: 's' :: 'e' :: rest) = some (.bool false, rest) :=
  rfl

theorem readValue_quote :
    readValue (steps + 1) ('"' :: rest) =
      (readString rest).map fun (text, rest) => (.string text, rest) :=
  rfl

theorem readValue_array_nil :
    readValue (steps + 1) ('[' :: ']' :: rest) = some (.array [], rest) :=
  rfl

theorem readValue_object_nil :
    readValue (steps + 1) ('\x7b' :: '\x7d' :: rest) = some (.object [], rest) :=
  rfl

end Start

theorem readValue_array_cons {steps : Nat} {chars : List Char} {c : Char} {rest : List Char}
    (h : skipSpace chars = c :: rest) (hc : c ≠ ']') :
    readValue (steps + 1) ('[' :: chars) = readArray steps chars [] := by
  rw [← readArray_skipSpace steps chars, readValue, skipSpace_of_not_isSpace (by decide)]
  simp [h, hc]

theorem readValue_object_cons {steps : Nat} {chars : List Char} {c : Char} {rest : List Char}
    (h : skipSpace chars = c :: rest) (hc : c ≠ '\x7d') :
    readValue (steps + 1) ('\x7b' :: chars) = readMembers steps chars [] := by
  rw [← readMembers_skipSpace steps chars, readValue, skipSpace_of_not_isSpace (by decide)]
  simp [h, hc]

theorem readValue_number {c : Char} (h : c.isDigit = true ∨ c = '-') (steps : Nat)
    (rest : List Char) : readValue (steps + 1) (c :: rest) = readNumber (c :: rest) := by
  have hother := ne_of_startsNumber h
  simp only [List.mem_cons, not_or] at hother
  rw [readValue, skipSpace_of_not_isSpace (isSpace_of_startsNumber h)]
  simp [hother]

/-! ## Values -/

/-- A new line does not continue a number. -/
theorem endsNumber_newLine (level : Nat) (rest : List Char) :
    EndsNumber ((newLine level).toList ++ rest) := by
  rw [newLine, String.toList_append]
  exact endsNumber_cons (by decide)

theorem length_newLine_pos (level : Nat) : 0 < (newLine level).toList.length := by
  simp [newLine]

/-- A value is read back from its text, at whatever level it is written and where nothing
follows that a number would go on with. -/
def ReadsBack (value : Value) : Prop :=
  ∀ (level steps : Nat) (rest : List Char), (value.print level).toList.length ≤ steps →
    EndsNumber rest → readValue steps ((value.print level).toList ++ rest) = some (value, rest)

theorem readsBack_of_text (value : Value) (text : List Char)
    (htext : ∀ level, (value.print level).toList = text) (hne : text ≠ [])
    (hread : ∀ steps rest, readValue (steps + 1) (text ++ rest) = some (value, rest)) :
    ReadsBack value := by
  intro level steps rest hsteps _
  rw [htext] at hsteps ⊢
  have hpos : 0 < text.length := List.length_pos_iff.mpr hne
  obtain ⟨steps, rfl⟩ : ∃ fewer, steps = fewer + 1 := Nat.exists_eq_succ_of_ne_zero (by omega)
  exact hread steps rest

theorem readsBack_number (whole : Option Int) : ReadsBack (.number whole) := by
  intro level steps rest hsteps hrest
  obtain ⟨c, digits, hnumber, hc⟩ := head_printNumber whole
  rw [print, hnumber, List.length_cons] at hsteps
  obtain ⟨steps, rfl⟩ : ∃ fewer, steps = fewer + 1 := Nat.exists_eq_succ_of_ne_zero (by omega)
  -- the first character decides that a number is read
  rw [print, hnumber, List.cons_append, readValue_number hc, ← List.cons_append, ← hnumber]
  exact readNumber_printNumber hrest whole

theorem readsBack_string (text : Option String) : ReadsBack (.string text) := by
  obtain ⟨body, hbody, hread⟩ := readString_printString text
  have hprint (level : Nat) : ((Value.string text).print level).toList = '"' :: body := by
    rw [print, hbody]
  apply readsBack_of_text (.string text) ('"' :: body) hprint (by simp)
  intro steps rest
  rw [List.cons_append, readValue_quote, hread, Option.map_some]

/-- The items of an array are read back up to its closing bracket. -/
theorem readArray_itemsText {item : Value} {items : List Value}
    (hitems : ∀ other ∈ item :: items, ReadsBack other) (level closing steps : Nat)
    (hsteps : (itemsText level (item :: items)).length ≤ steps) (rest : List Char)
    (before : List Value) :
    readArray steps
        (itemsText level (item :: items) ++ ((newLine closing).toList ++ ']' :: rest)) before =
      some (.array (before.reverse ++ item :: items), rest) := by
  have hline := length_newLine_pos level
  -- the items already read are in `before`, in reverse; a step is used for each item
  induction items generalizing item steps before with
  | nil =>
      have hitem := hitems item List.mem_cons_self
      simp only [itemsText, List.length_append] at hsteps
      obtain ⟨steps, rfl⟩ : ∃ fewer, steps = fewer + 1 := Nat.exists_eq_succ_of_ne_zero (by omega)
      rw [itemsText, show (printItems level []).toList = [] from rfl, List.append_nil,
        List.append_assoc, readArray, readValue_newLine,
        hitem level steps _ (by omega) (endsNumber_newLine closing _)]
      simp [skipSpace_newLine, skipSpace_of_not_isSpace (c := ']') (by decide)]
  | cons next items ih =>
      have hitem := hitems item List.mem_cons_self
      rw [itemsText, toList_printItems] at hsteps ⊢
      simp only [List.length_append, List.length_cons] at hsteps
      obtain ⟨steps, rfl⟩ : ∃ fewer, steps = fewer + 1 := Nat.exists_eq_succ_of_ne_zero (by omega)
      rw [List.append_assoc, List.append_assoc, List.cons_append, readArray, readValue_newLine,
        hitem level steps _ (by omega) (endsNumber_cons (by decide))]
      have hread := ih (fun other hother => hitems other (List.mem_cons_of_mem item hother))
        steps (by omega) (item :: before)
      simp [skipSpace_of_not_isSpace (c := ',') (by decide), hread]

/-- What is read after a member, for the text after it without blanks. -/
def readAfterMember (steps : Nat) (members : List (Option String × Value)) :
    List Char → Option (Value × List Char)
  | ',' :: rest => readMembers steps rest members
  | '\x7d' :: rest => some (.object members.reverse, rest)
  | _ => none

/-- The key and the value of a member are read back, and reading goes on after them. -/
theorem readMembers_member {key : Option String} {value : Value} (hvalue : ReadsBack value)
    (level steps : Nat) (hsteps : (value.print level).toList.length ≤ steps) {tail : List Char}
    (htail : EndsNumber tail) (before : List (Option String × Value)) :
    readMembers (steps + 1) ((newLine level).toList ++ ((printString key).toList ++
        ':' :: ' ' :: ((value.print level).toList ++ tail))) before =
      readAfterMember steps ((key, value) :: before) (skipSpace tail) := by
  obtain ⟨body, hkey, hread⟩ := readString_printString key
  -- reading a value passes over the blank after the colon
  have hblank (chars : List Char) : readValue steps (' ' :: chars) = readValue steps chars := by
    rw [← readValue_skipSpace, ← readValue_skipSpace steps chars]
    rfl
  rw [readMembers, skipSpace_newLine, hkey, List.cons_append,
    skipSpace_of_not_isSpace (by decide)]
  simp only [hread, skipSpace_of_not_isSpace (c := ':') (by decide), hblank,
    hvalue level steps tail hsteps htail]
  rfl

/-- The members of an object are read back up to its closing brace. -/
theorem readMembers_membersText {member : Option String × Value}
    {members : List (Option String × Value)}
    (hmembers : ∀ other ∈ member :: members, ReadsBack other.2) (level closing steps : Nat)
    (hsteps : (membersText level (member :: members)).length ≤ steps) (rest : List Char)
    (before : List (Option String × Value)) :
    readMembers steps
        (membersText level (member :: members) ++ ((newLine closing).toList ++ '\x7d' :: rest))
        before =
      some (.object (before.reverse ++ member :: members), rest) := by
  induction members generalizing member steps before with
  | nil =>
      obtain ⟨key, value⟩ := member
      have hvalue : ReadsBack value := hmembers (key, value) List.mem_cons_self
      simp only [membersText, List.length_append, List.length_cons] at hsteps
      obtain ⟨steps, rfl⟩ : ∃ fewer, steps = fewer + 1 := Nat.exists_eq_succ_of_ne_zero (by omega)
      rw [membersText, show (printMembers level []).toList = [] from rfl, List.append_nil,
        List.append_assoc, List.append_assoc, List.cons_append, List.cons_append,
        readMembers_member hvalue level steps (by omega) (endsNumber_newLine closing _)]
      simp [readAfterMember, skipSpace_newLine, skipSpace_of_not_isSpace (c := '\x7d') (by decide)]
  | cons next members ih =>
      obtain ⟨key, value⟩ := member
      have hvalue : ReadsBack value := hmembers (key, value) List.mem_cons_self
      rw [membersText, toList_printMembers] at hsteps ⊢
      simp only [List.length_append, List.length_cons] at hsteps
      obtain ⟨steps, rfl⟩ : ∃ fewer, steps = fewer + 1 := Nat.exists_eq_succ_of_ne_zero (by omega)
      rw [List.append_assoc, List.append_assoc, List.cons_append, List.cons_append,
        List.append_assoc, List.cons_append,
        readMembers_member hvalue level steps (by omega) (endsNumber_cons (by decide))]
      have hread := ih (fun other hother => hmembers other (List.mem_cons_of_mem _ hother))
        steps (by omega) ((key, value) :: before)
      simp [readAfterMember, skipSpace_of_not_isSpace (c := ',') (by decide), hread]

/-- An array whose items are read back is read back. -/
theorem readsBack_array {items : List Value} (hitems : ∀ item ∈ items, ReadsBack item) :
    ReadsBack (.array items) := by
  cases items with
  | nil =>
      exact readsBack_of_text (.array []) ['[', ']'] (fun level => by simp [print]) (by simp)
        readValue_array_nil
  | cons item items =>
      intro level steps rest hsteps _
      rw [toList_print_array] at hsteps ⊢
      simp only [List.length_cons, List.length_append] at hsteps
      obtain ⟨steps, rfl⟩ : ∃ fewer, steps = fewer + 1 := Nat.exists_eq_succ_of_ne_zero (by omega)
      obtain ⟨c, others, hitem, hspace, hc⟩ := head_print (level + 1) item
      -- the array is not closed at once, since no value starts with a closing bracket
      have hfirst : skipSpace (itemsText (level + 1) (item :: items) ++
          ((newLine level).toList ++ ']' :: rest)) =
          c :: (others ++ ((printItems (level + 1) items).toList ++
            ((newLine level).toList ++ ']' :: rest))) := by
        rw [itemsText, hitem, List.append_assoc, skipSpace_newLine, List.append_assoc,
          List.cons_append, skipSpace_of_not_isSpace hspace]
      rw [List.cons_append, List.append_assoc, List.append_assoc, List.singleton_append,
        readValue_array_cons hfirst hc]
      exact readArray_itemsText hitems (level + 1) level steps (by omega) rest []

/-- An object whose members are read back is read back. -/
theorem readsBack_object {members : List (Option String × Value)}
    (hmembers : ∀ member ∈ members, ReadsBack member.2) : ReadsBack (.object members) := by
  cases members with
  | nil =>
      exact readsBack_of_text (.object []) ['\x7b', '\x7d'] (fun level => by simp [print])
        (by simp) readValue_object_nil
  | cons member members =>
      intro level steps rest hsteps _
      rw [toList_print_object] at hsteps ⊢
      simp only [List.length_cons, List.length_append] at hsteps
      obtain ⟨steps, rfl⟩ : ∃ fewer, steps = fewer + 1 := Nat.exists_eq_succ_of_ne_zero (by omega)
      obtain ⟨key, value⟩ := member
      obtain ⟨body, hkey, -⟩ := readString_printString key
      have hfirst : skipSpace (membersText (level + 1) ((key, value) :: members) ++
          ((newLine level).toList ++ '\x7d' :: rest)) =
          '"' :: (body ++ ':' :: ' ' :: ((value.print (level + 1)).toList ++
            ((printMembers (level + 1) members).toList ++
              ((newLine level).toList ++ '\x7d' :: rest)))) := by
        rw [membersText, hkey, List.append_assoc, skipSpace_newLine, List.cons_append,
          List.cons_append, skipSpace_of_not_isSpace (by decide)]
        simp
      rw [List.cons_append, List.append_assoc, List.append_assoc, List.singleton_append,
        readValue_object_cons hfirst (by decide)]
      exact readMembers_membersText hmembers (level + 1) level steps (by omega) rest []

theorem readsBack (value : Value) : ReadsBack value := by
  induction value using Value.induction with
  | null =>
      exact readsBack_of_text .null ['n', 'u', 'l', 'l'] (fun level => by simp [print]) (by simp)
        readValue_null
  | bool value =>
      cases value with
      | true =>
          exact readsBack_of_text (.bool true) ['t', 'r', 'u', 'e'] (fun level => by simp [print])
            (by simp) readValue_true
      | false =>
          exact readsBack_of_text (.bool false) ['f', 'a', 'l', 's', 'e']
            (fun level => by simp [print]) (by simp) readValue_false
  | number whole => exact readsBack_number whole
  | string text => exact readsBack_string text
  | array items ih => exact readsBack_array ih
  | object members ih => exact readsBack_object ih

/-- **Every value is read back from its text.** -/
theorem read?_pretty (value : Value) : Value.read? value.pretty = some value := by
  -- nothing follows a whole text, and the steps suffice for all of its characters
  have hread := readsBack value 0 (2 * value.pretty.toList.length + 2) []
    (by rw [pretty]; omega) endsNumber_nil
  rw [List.append_nil, ← pretty] at hread
  simp [Value.read?, hread, skipSpace]

end MiniC.Json
