import MiniC.Proofs.Ast.Arena
import MiniC.Proofs.Correctness.Functions
import MiniC.Proofs.Reading.Accepts
import MiniC.Proofs.Reading.Sound.Files

/-!
# Syntax trees of the grammar

Every parse tree of the grammar is accepted, and the arena that is built from it is the
syntax tree of the program that it spells (`build_of_spells`).  The other way around, an
accepted parse tree spells the program of its syntax tree if no production in it has more
parts than its rule has places (`spells_of_build`).

Punctuation and keywords are not asked for, so that more is accepted than what the grammar
writes with all its symbols, and surplus parts are left out (`accepted_beyond_grammar`).
-/

namespace MiniC

open Ast (Arena)
open ParseTree (Element Production Rule TokenKind fills)

/-- **The grammar is accepted.**  A parse tree that spells a program is turned into the
syntax tree of this program, each node at the place of its construct. -/
theorem build_of_spells {file : String} {production : Production} {unit : CompileUnit}
    (h : SpellsUnit file production unit) :
    ∃ arena, Compiler.build file production = .ok arena ∧
      arena.root >>= arena.tree? = some unit.toTree := by
  refine ⟨Arena.ofTree unit.toTree, ?_, Arena.tree?_ofTree unit.toTree unit.fits⟩
  rw [Compiler.build, CompileUnit.ofProduction_of_spells h]

namespace Sample

/-- The function of the sample file. -/
def definition : FunctionDefinition where
  location := place
  name := "f"
  returnType := "int"
  returnTypeLocation := place
  parameters := some ⟨place, [⟨place, "x", "int"⟩]⟩
  body := ⟨place,
    [.ifElse place (.name place "x") ⟨place, [.returnValue place (some (.number place 1))]⟩ none,
      .whileLoop place (.name place "y") (.breakLoop place)]⟩

/-- The program of the sample file. -/
def unit : CompileUnit :=
  ⟨place, [.global ⟨place, place, "int", place, "y", none⟩, .function definition]⟩

theorem spellsType_int :
    SpellsType ⟨.typeSpecifier, 1, 1, [token .typeName "int"]⟩ "int" :=
  @SpellsType.word _ ⟨.typeName, "int", 1, 1⟩ rfl rfl rfl

theorem spells_choice : SpellsStmt "sample.c" choice
    (.ifElse place (.name place "x")
      ⟨place, [.returnValue place (some (.number place 1))]⟩ none) := by
  have hone : SpellsExpr "sample.c" (token .number "1") (.number place 1) :=
    @SpellsExpr.number _ ⟨.number, "1", 1, 1⟩ 1 ⟨rfl, by decide⟩ (by decide) (by decide)
  have hreturn : SpellsStmt "sample.c"
      (part .statement [token .keyword "return", token .number "1"])
      (.returnValue place (some (.number place 1))) :=
    .returnValue rfl (by decide) rfl hone
  have hname : SpellsExpr "sample.c" (token .identifier "x") (.name place "x") := .name rfl
  refine .ifThen rfl rfl ?_ hname (.block rfl (.cons hreturn .nil))
  intro helse
  exact absurd helse (by decide)

theorem spells_repetition : SpellsStmt "sample.c" repetition
    (.whileLoop place (.name place "y") (.breakLoop place)) := by
  have hname : SpellsExpr "sample.c" (token .identifier "y") (.name place "y") := .name rfl
  have hbreak : SpellsStmt "sample.c" (part .statement [token .keyword "break"])
      (.breakLoop place) :=
    .breakLoop rfl (by decide) (by decide) rfl
  exact .whileLoop rfl rfl hname hbreak

theorem spells_global :
    SpellsItem "sample.c"
      ⟨.declaration, 1, 1, [part .typeSpecifier [token .typeName "int"], token .identifier "y"]⟩
      (.global ⟨place, place, "int", place, "y", none⟩) :=
  .global (@SpellsGlobal.plain _ _ _ ⟨.identifier, "y", 1, 1⟩ _ rfl rfl spellsType_int rfl)

theorem spells_function :
    SpellsItem "sample.c"
      ⟨.functionDefinition, 1, 1, [part .typeSpecifier [token .typeName "int"],
        token .identifier "f",
        part .fargs [part .typeSpecifier [token .typeName "int"], token .identifier "x"],
        part .block [part .statementList [choice, repetition]]]⟩
      (.function definition) := by
  have hparameters : SpellsParameterList "sample.c"
      [part .fargs [part .typeSpecifier [token .typeName "int"], token .identifier "x"]]
      (some ⟨place, [⟨place, "x", "int"⟩]⟩) :=
    .some rfl (@SpellsParameters.cons _ _ ⟨.identifier, "x", 1, 1⟩ _ _ _ spellsType_int rfl .nil)
  have hbody : SpellsBlock "sample.c" ⟨.block, 1, 1, [part .statementList [choice, repetition]]⟩
      definition.body :=
    .block rfl (.cons spells_choice (.cons spells_repetition .nil))
  exact @SpellsItem.function _ _ _ _ ⟨.identifier, "f", 1, 1⟩ _ _ _ _ rfl rfl spellsType_int rfl
    hparameters hbody

/-- The sample file is one of the grammar. -/
theorem spells : SpellsUnit "sample.c" production unit :=
  .unit rfl (.cons spells_global (.cons spells_function .nil))

end Sample

/-- The sample file is turned into the syntax tree of its program. -/
theorem build_sample :
    ∃ arena, Compiler.build "sample.c" Sample.production = .ok arena ∧
      arena.root >>= arena.tree? = some Sample.unit.toTree :=
  build_of_spells Sample.spells

/-- **What is accepted is of the grammar.**  An accepted parse tree without surplus parts
spells a program, each part in its role, and the syntax tree is the one of this program. -/
theorem spells_of_build {file : String} {production : Production} {arena : Arena}
    (hbuild : Compiler.build file production = .ok arena) (htidy : production.tidy) :
    ∃ unit, SpellsUnit file production unit ∧ arena.root >>= arena.tree? = some unit.toTree := by
  obtain ⟨unit, hunit, rfl⟩ := unit_of_build hbuild
  exact ⟨unit, CompileUnit.spells_of_ofProduction htidy hunit,
    Arena.tree?_ofTree unit.toTree unit.fits⟩

/-- The sample file has no surplus parts. -/
theorem spells_of_build_sample :
    ∃ arena unit, Compiler.build "sample.c" Sample.production = .ok arena ∧
      Sample.production.tidy = true ∧ SpellsUnit "sample.c" Sample.production unit ∧
      arena.root >>= arena.tree? = some unit.toTree := by
  obtain ⟨arena, -, hbuild, -⟩ := Sample.generated
  have htidy : Sample.production.tidy := by decide +kernel
  obtain ⟨unit, hspells, htree⟩ := spells_of_build hbuild htidy
  exact ⟨arena, unit, hbuild, htidy, hspells, htree⟩

/-! ## Beyond the grammar -/

/-- Whether a production is no `if`, or one that the grammar writes with all its symbols. -/
def ParseTree.Production.isWrittenIf (production : Production) : Bool :=
  let mark text : Element → Bool := fun element => element.token?.any (·.is .punctuation text)
  let word text : Element → Bool := fun element => element.token?.any (·.is .keyword text)
  let start := [word "if", mark "(", Element.isExpression, mark ")", Element.isOf .block]
  production.rule != .ifStatement || fills start production.children ||
    fills (start ++ [word "else", Element.isOf .block]) production.children

namespace Sample

/-- The block of one statement `return` with a number. -/
def returnBlock (number : String) : Element :=
  part .block [token .punctuation "\x7b",
    part .statementList [part .statement [token .keyword "return", token .number number,
      token .punctuation ";"]],
    token .punctuation "\x7d"]

/-- The file `int main() { … }` with one statement. -/
def mainWith (statement : Element) : Production :=
  ⟨.compileUnit, 1, 1,
    [part .functionDefinition [part .typeSpecifier [token .typeName "int"],
      token .identifier "main", token .punctuation "(", token .punctuation ")",
      part .block [token .punctuation "\x7b", part .statementList [statement],
        token .punctuation "\x7d"]]]⟩

/-- The statement `if x < 3 { return 1; } else { return 2; }`. -/
def bareChoice : Element :=
  part .ifStatement [token .keyword "if",
    part .binaryExpression [token .identifier "x", token .operator "<", token .number "3"],
    returnBlock "1", token .keyword "else", returnBlock "2"]

/-- The statement `if (name) { return …; }`, and what follows it. -/
def choiceThen (name number : String) (others : List Element) : Element :=
  part .ifStatement ([token .keyword "if", token .punctuation "(", token .identifier name,
    token .punctuation ")", returnBlock number] ++ others)

/-- The statement `if (x) { return 1; } else if (y) { return 2; }`. -/
def choiceElse : Element :=
  choiceThen "x" "1" [token .keyword "else", choiceThen "y" "2" []]

end Sample

/-- An `if` is accepted that has no parentheses.  And an `if` after an `else` is accepted
and left out, so that the same syntax tree is built without it. -/
theorem accepted_beyond_grammar :
    (¬ ∀ (file : String) (production : Production) (arena : Arena),
      Compiler.build file production = .ok arena →
        production.everywhere Production.isWrittenIf) ∧
    ∃ arena,
      Compiler.build "test.minic" (Sample.mainWith Sample.choiceElse) = .ok arena ∧
      Compiler.build "test.minic" (Sample.mainWith (Sample.choiceThen "x" "1" [])) = .ok arena := by
  constructor
  · intro h
    obtain ⟨arena, hbuild⟩ : ∃ arena,
        Compiler.build "test.minic" (Sample.mainWith Sample.bareChoice) = .ok arena :=
      exists_eq_ok_of_isOk (by decide +kernel)
    have hwritten := h "test.minic" _ arena hbuild
    revert hwritten
    decide +kernel
  · have hread : CompileUnit.ofProduction "test.minic" (Sample.mainWith Sample.choiceElse) =
        CompileUnit.ofProduction "test.minic" (Sample.mainWith (Sample.choiceThen "x" "1" [])) := by
      rfl
    obtain ⟨arena, hbuild⟩ : ∃ arena, Compiler.build "test.minic"
        (Sample.mainWith (Sample.choiceThen "x" "1" [])) = .ok arena :=
      exists_eq_ok_of_isOk (by decide +kernel)
    refine ⟨arena, ?_, hbuild⟩
    rw [Compiler.build, hread, ← Compiler.build, hbuild]

end MiniC
