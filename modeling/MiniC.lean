import MiniC.Location
import MiniC.Error
import MiniC.Text.Pieces
import MiniC.Text.Decimal
import MiniC.Operator
import MiniC.Json.Reader
import MiniC.Json.Printer
import MiniC.ParseTree.Json
import MiniC.Asm.Buffer
import MiniC.Symbols.Globals
import MiniC.Symbols.Frame
import MiniC.Ast.Json
import MiniC.Program.Tree
import MiniC.Program.OfParseTree
import MiniC.Emission.Layout
import MiniC.Codegen.Generate
import MiniC.CommandLine.Run
import MiniC.Main
import MiniC.Proofs.Emission.Operations
import MiniC.Proofs.Translation.Expression
import MiniC.Proofs.Codegen.Expressions
import MiniC.Proofs.Machine.Memory
import MiniC.Proofs.Machine.State
import MiniC.Proofs.Meaning.Expression
import MiniC.Proofs.Meaning.World
import MiniC.Proofs.Machine.Layout
import MiniC.Proofs.Machine.Operators
import MiniC.Proofs.Machine.Callees
import MiniC.Proofs.Machine.Expressions
import MiniC.Proofs.Correctness.Expressions
import MiniC.Proofs.Codegen.Declarations
import MiniC.Proofs.Emission.Assembly
import MiniC.Proofs.Translation.Statement
import MiniC.Proofs.Codegen.Statements
import MiniC.Proofs.Codegen.Functions
import MiniC.Proofs.Translation.File
import MiniC.Proofs.Codegen.Files
import MiniC.Proofs.Ast.Arena
import MiniC.Proofs.Asm.Buffer
import MiniC.Proofs.Correctness.Files
import MiniC.Proofs.Asm.Labels
import MiniC.Proofs.Translation.Code
import MiniC.Proofs.Translation.Labels
import MiniC.Proofs.Translation.Breaks
import MiniC.Proofs.Codegen.Breaks
import MiniC.Proofs.Correctness.Labels
import MiniC.Proofs.Machine.Program
import MiniC.Proofs.Meaning.Statement
import MiniC.Proofs.Machine.Statements
import MiniC.Proofs.Machine.Functions
import MiniC.Proofs.Correctness.Functions
import MiniC.Proofs.Ast.Canonical
import MiniC.Proofs.Correctness.Building
import MiniC.Proofs.Codegen.Outcomes
import MiniC.Proofs.Correctness.Failures
import MiniC.Proofs.Reading.Results
import MiniC.Proofs.Reading.Grammar
import MiniC.Proofs.Reading.Accepts
import MiniC.Proofs.Correctness.Reading
import MiniC.Proofs.Reading.Sound.Files
import MiniC.Proofs.Ast.Acyclic
import MiniC.Proofs.Codegen.Options
import MiniC.Proofs.Correctness.Styles
import MiniC.Proofs.Symbols.Slots
import MiniC.Proofs.Translation.Occurrences
import MiniC.Proofs.Correctness.Names
import MiniC.Proofs.Correctness.Arguments
import MiniC.Proofs.Machine.Calls
import MiniC.Proofs.Asm.Reader
import MiniC.Proofs.Correctness.Instructions
import MiniC.Proofs.Translation.Outline
import MiniC.Proofs.Reading.Outline.Files
import MiniC.Proofs.Correctness.Positions
import MiniC.Proofs.Ast.Outline
import MiniC.Proofs.Translation.Renumber
import MiniC.Proofs.Correctness.Independence
import MiniC.Proofs.Ast.CompileUnits
import MiniC.Proofs.Emission.Positions
import MiniC.Proofs.Emission.Placement
import MiniC.Proofs.Emission.Tidy
import MiniC.Proofs.Emission.StrictTree
import MiniC.Proofs.Codegen.Placement
import MiniC.Proofs.Correctness.Placement
import MiniC.Proofs.Text.Decimal
import MiniC.Proofs.Json.Tokens
import MiniC.Proofs.Json.Values
import MiniC.Proofs.ParseTree.Json
import MiniC.Proofs.Correctness.ParseTrees
import MiniC.Proofs.Ast.Insertion
import MiniC.Proofs.Building.Frames
import MiniC.Proofs.Building.Rules
import MiniC.Proofs.Building.Refinement
import MiniC.Proofs.Reading.Failures
import MiniC.Proofs.Correctness.Malformations
import MiniC.Proofs.Emission.WellFormed
import MiniC.Proofs.Emission.Histories
import MiniC.Proofs.Correctness.Emissions
import MiniC.Proofs.Emission.Atomicity
import MiniC.Proofs.Correctness.Atomicity
import MiniC.Proofs.Ast.Listings
import MiniC.Proofs.Correctness.Arenas
import MiniC.Proofs.Translation.DataSection
import MiniC.Proofs.Correctness.DataSection
import MiniC.Proofs.Reading.Parentheses.Elements
import MiniC.Proofs.Reading.Parentheses.Productions
import MiniC.Proofs.Correctness.Parentheses
import MiniC.Proofs.Text.Lines
import MiniC.Proofs.Asm.Histories
import MiniC.Proofs.Correctness.Buffers
import MiniC.Proofs.CommandLine.Files
import MiniC.Proofs.CommandLine.Path
import MiniC.Proofs.Asm.Options
import MiniC.Proofs.CommandLine.Stages
import MiniC.Proofs.CommandLine.Runs
import MiniC.Proofs.Correctness.Commands
import MiniC.Proofs.Correctness.Overwriting
import MiniC.Proofs.Reading.Numbers
import MiniC.Proofs.Reading.Positions.Gaps
import MiniC.Proofs.Reading.Positions.Dependence
import MiniC.Proofs.Reading.Positions.Expressions
import MiniC.Proofs.Reading.Positions.Statements
import MiniC.Proofs.Reading.Positions.Files
import MiniC.Proofs.Correctness.Numbers
import MiniC.Proofs.Reading.Positions.Signs
import MiniC.Proofs.Symbols.Declarations
import MiniC.Proofs.Correctness.Frames
import MiniC.Proofs.Correctness.NodeLabels
