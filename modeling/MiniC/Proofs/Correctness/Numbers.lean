import MiniC.Proofs.Correctness.Files
import MiniC.Proofs.Meaning.Expression
import MiniC.Proofs.Reading.Positions.Files
import MiniC.Proofs.Reading.Positions.Signs

/-!
# Numbers denote their values

A number is read as the integer that its text denotes, whatever the text looks like: with leading
zeros, with a sign, in parentheses.  It has to be one of 32 bits, and behind a minus sign it may be
2³¹ as well; any other text is refused, and its token is reported.  That holds wherever a value is
read in a file, which has what is read in it, or is refused as the number is (`build_of_numbers`).

The magnitude of the least integer does not fit by itself, so its sign is read together with it.
The sign of any other number stays an operator.
-/

namespace MiniC

open Ast (Arena)
open ParseTree

section Places

variable {file : String} {top : Gap} {gaps : List Gap}

/-- What is built of the files with some value at a place, if one of them is accepted. -/
theorem build_of_position {values : Element → Prop} (htop : top.rule = .compileUnit)
    (hplace : Position values gaps .item)
    (haccepted : ∃ element : Element, element.IsValue ∧ (element.IsNumeral → values element) ∧
      (Compiler.build file (top.fill (fillAll gaps element))).isOk) :
    ∃ fill : Expr → CompileUnit,
      (∀ value : Expr, value.toTree.Within [(fill value).toTree]) ∧
      ∀ element : Element, element.IsValue → (element.IsNumeral → values element) →
        (∀ value, Expr.ofElement file element = .ok value →
          Compiler.build file (top.fill (fillAll gaps element)) =
            .ok (Arena.ofTree (fill value).toTree)) ∧
        ∀ malformation, Expr.ofElement file element = .error malformation →
          Compiler.build file (top.fill (fillAll gaps element)) =
            .error malformation.toError := by
  obtain ⟨accepted, hvalue, hnumeral, hok⟩ := haccepted
  rcases CompileUnit.carries htop hplace.widen fun _ h => h.1 with
    hrefused | ⟨fill, hwithin, hread⟩
  · obtain ⟨malformation, hmalformation⟩ := hrefused accepted ⟨hvalue, hnumeral⟩
    rw [Compiler.build, hmalformation] at hok
    cases hok
  · refine ⟨fill, hwithin, ?_⟩
    intro element helement hplaced
    constructor
    · intro value hfound
      rw [Compiler.build, hread element ⟨helement, hplaced⟩, hfound]
      rfl
    · intro malformation hfound
      rw [Compiler.build, hread element ⟨helement, hplaced⟩, hfound]
      rfl

end Places

/-- A literal that is the negation of an integer, or the negation of its literal, has the negated
value. -/
theorem evaluate_negated (oracle : Oracle) (frame : Frame) (world : World)
    (location inner : Location) (value : Int) :
    (if value = 2147483648 then Expr.number inner Int32.minValue
      else Expr.unary location .minus (.number inner (Int32.ofInt value))).evaluate
        oracle frame world = some (Int32.ofInt (-value), world) := by
  by_cases hminimum : value = 2147483648
  · subst hminimum
    rfl
  · rw [if_neg hminimum, Expr.evaluate, Expr.evaluate, Int32.ofInt_neg]
    rfl

/-- **Numbers denote their values.**  A number of 32 bits is read as the literal with the value
that its text denotes; any other text is refused, and its token is reported.  Behind a minus sign
the numbers from -2³¹ to 2³¹ are accepted, and the value of what is read, a literal or the negation
of one, is the negated integer, but for a multiple of 2³².

At a place where some value is accepted in a file, that decides about the file as well: with what is
read in its syntax tree it is accepted, and otherwise it is refused as the number is.  The numbers
that the place is for are given, since behind a minus sign none is read by itself. -/
theorem build_of_numbers (file : String) :
    (∀ (element : Element) (token : Token), element.IsNumber token →
      (∀ value, Text.Denotes token.text value → -2147483648 ≤ value → value < 2147483648 →
        Expr.ofElement file element =
          .ok (.number (token.location file) (Int32.ofInt value))) ∧
      ((∀ value, Text.Denotes token.text value →
          ¬ (-2147483648 ≤ value ∧ value < 2147483648)) →
        Expr.ofElement file element =
          .error ⟨.primaryExpression, token.location file, .numberRange token.text⟩)) ∧
    (∀ (production : Production) (token : Token), production.Negates token →
      (∀ value, Text.Denotes token.text value → -2147483648 ≤ value → value ≤ 2147483648 →
        ∃ found : Expr, Expr.ofElement file (.production production) = .ok found ∧
          (found = .number (token.location file) (Int32.ofInt (-value)) ∨
            found = .unary (production.location file) .minus
              (.number (token.location file) (Int32.ofInt value))) ∧
          ∀ oracle frame world,
            found.evaluate oracle frame world = some (Int32.ofInt (-value), world)) ∧
      ((∀ value, Text.Denotes token.text value →
          ¬ (-2147483648 ≤ value ∧ value ≤ 2147483648)) →
        Expr.ofElement file (.production production) =
          .error ⟨.primaryExpression, token.location file, .numberRange token.text⟩)) ∧
    ∀ (top : Gap) (gaps : List Gap) (numbers : Element → Prop),
      top.rule = .compileUnit → Position numbers gaps .item →
      (∃ element : Element, element.IsValue ∧ (element.IsNumeral → numbers element) ∧
        (Compiler.build file (top.fill (fillAll gaps element))).isOk) →
      ∃ fill : Expr → CompileUnit,
        (∀ value : Expr, value.toTree.Within [(fill value).toTree]) ∧
        ∀ element : Element, element.IsNumeral ∧ numbers element ∨ element.IsNegation →
          (∀ value, Expr.ofElement file element = .ok value →
            Compiler.build file (top.fill (fillAll gaps element)) =
              .ok (Arena.ofTree (fill value).toTree)) ∧
          ∀ malformation, Expr.ofElement file element = .error malformation →
            Compiler.build file (top.fill (fillAll gaps element)) =
              .error malformation.toError := by
  refine ⟨?_, ?_, ?_⟩
  · intro element token hnumber
    rw [Expr.ofElement_of_isNumber hnumber]
    exact ⟨fun value => Expr.ofToken_of_denotes hnumber.kind_eq,
      Expr.ofToken_of_out_of_range hnumber.kind_eq⟩
  · intro production token hnegates
    rw [Expr.ofElement]
    refine ⟨?_, Expr.ofProduction_of_out_of_range hnegates⟩
    intro value hdenotes hlow hhigh
    refine ⟨_, Expr.ofProduction_of_denotes hnegates hdenotes hlow hhigh, ?_, ?_⟩
    -- the least number has no positive counterpart, so its sign is read with the digits
    · by_cases hminimum : value = 2147483648
      · left
        subst hminimum
        rfl
      · right
        rw [if_neg hminimum]
    · intro oracle frame world
      exact evaluate_negated oracle frame world _ _ value
  · intro top gaps numbers htop hplace haccepted
    obtain ⟨fill, hwithin, hbuild⟩ := build_of_position htop hplace haccepted
    refine ⟨fill, hwithin, ?_⟩
    intro element helement
    -- a negation fits at every position, a numeral where the position takes one
    rcases helement with ⟨hnumeral, hnumber⟩ | hnegation
    · exact hbuild element hnumeral.isValue fun _ => hnumber
    · exact hbuild element hnegation.isValue fun hnumeral =>
        absurd hnumeral hnegation.not_isNumeral

/-! ## Returning a number -/

namespace Sample

/-- A file. -/
def wholeFile : Gap := ⟨.compileUnit, 1, 1, [], []⟩

/-- The way to the value that the function `int f()` of a file returns. -/
def returned : List Gap :=
  [⟨.functionDefinition, 1, 1,
      [part .typeSpecifier [token .typeName "int"], token .identifier "f"], []⟩,
    ⟨.block, 1, 1, [], []⟩, ⟨.statementList, 1, 1, [], []⟩,
    ⟨.statement, 1, 1, [token .keyword "return"], []⟩]

theorem position_returned (values : Element → Prop) : Position values returned .item := by
  refine .inside (.body rfl rfl) (.inside (.listing rfl) (.inside (.listed rfl)
    (.inside (.returned rfl rfl rfl) .here ?_) ?_) ?_) ?_
  all_goals exact fun _ _ _ h => nomatch h.rule_eq

theorem isNumber_token (text : String) :
    (token .number text).IsNumber ⟨.number, text, 1, 1⟩ := .token rfl

/-- A minus sign in front of a number. -/
def negation (text : String) : Production :=
  ⟨.unaryExpression, 1, 1, [token .operator "-", token .number text]⟩

theorem negates_negation (text : String) : (negation text).Negates ⟨.number, text, 1, 1⟩ :=
  ⟨rfl, ⟨_, rfl, rfl⟩, _, rfl, isNumber_token text⟩

end Sample

/-- The number 007 is 7, and 2147483648 is out of range, but behind a minus sign it is the least
integer. -/
theorem build_returned :
    ∃ (fill : Expr → CompileUnit) (least : Expr),
      Compiler.build "sample.c"
          (Sample.wholeFile.fill (fillAll Sample.returned (Sample.token .number "007"))) =
        .ok (Arena.ofTree (fill (.number ⟨"sample.c", 1, 1⟩ 7)).toTree) ∧
      Compiler.build "sample.c"
          (Sample.wholeFile.fill (fillAll Sample.returned (Sample.token .number "2147483648"))) =
        .error (.malformed "primary expression" ⟨"sample.c", 1, 1⟩
          "number '2147483648' does not fit in 32 bits") ∧
      Compiler.build "sample.c" (Sample.wholeFile.fill
          (fillAll Sample.returned (.production (Sample.negation "2147483648")))) =
        .ok (Arena.ofTree (fill least).toTree) ∧
      ∀ oracle frame world, least.evaluate oracle frame world = some (Int32.minValue, world) := by
  obtain ⟨hnumbers, hnegations, hplaces⟩ := build_of_numbers "sample.c"
  have hseven : Text.Denotes "007" 7 := Text.integer?_eq_some_iff.mp (by decide +kernel)
  have hmagnitude : Text.Denotes "2147483648" 2147483648 :=
    Text.integer?_eq_some_iff.mp (by decide +kernel)
  obtain ⟨fill, -, hbuild⟩ := hplaces Sample.wholeFile Sample.returned Element.IsNumeral rfl
    (Sample.position_returned _) ⟨Sample.token .number "007", ⟨rfl, rfl⟩, id, by decide +kernel⟩
  have hseven := (hnumbers _ _ (Sample.isNumber_token "007")).1 7 hseven (by decide) (by decide)
  have hlarge := (hnumbers _ _ (Sample.isNumber_token "2147483648")).2 fun value hvalue hrange => by
    rw [hmagnitude.unique hvalue] at hrange
    exact absurd hrange.2 (by decide)
  obtain ⟨least, hleast, -, hvalue⟩ := (hnegations _ _ (Sample.negates_negation "2147483648")).1
    2147483648 hmagnitude (by decide) (by decide)
  have hnumeral : ∀ text, (Sample.token .number text).IsNumeral :=
    fun text => ⟨_, Sample.isNumber_token text⟩
  exact ⟨fill, least, (hbuild _ (.inl ⟨hnumeral _, hnumeral _⟩)).1 _ hseven,
    (hbuild _ (.inl ⟨hnumeral _, hnumeral _⟩)).2 _ hlarge,
    (hbuild _ (.inr ⟨_, _, rfl, Sample.negates_negation _⟩)).1 _ hleast, hvalue⟩

end MiniC
