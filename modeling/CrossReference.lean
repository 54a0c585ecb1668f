import CrossReference.Arguments
import CrossReference.Command
import CrossReference.Condition.Evaluate
import CrossReference.Condition.Integer
import CrossReference.Condition.Macros
import CrossReference.Digest
import CrossReference.Failure
import CrossReference.FileReport
import CrossReference.Glob.Expand
import CrossReference.Glob.Pattern
import CrossReference.Json
import CrossReference.Json.Document
import CrossReference.Language
import CrossReference.Main
import CrossReference.ParseTree
import CrossReference.ParseTree.Declarator
import CrossReference.ParseTree.Form
import CrossReference.ParseTree.QualifiedName
import CrossReference.Path
import CrossReference.Position
import CrossReference.Position.Lines
import CrossReference.Position.RangeMap
import CrossReference.Printing
import CrossReference.Proofs.ParseTree.Parts
import CrossReference.Proofs.ParseTree.Places
import CrossReference.Proofs.ParseTree.Within
import CrossReference.Proofs.Position.Lines
import CrossReference.Proofs.Preprocessor
import CrossReference.Proofs.RangeMap
import CrossReference.Proofs.Scope
import CrossReference.Proofs.SymbolTable
import CrossReference.Proofs.Text.Extent
import CrossReference.Proofs.TranslationUnit.Collect
import CrossReference.Proofs.Walk.Activity
import CrossReference.Proofs.Walk.Declare
import CrossReference.Proofs.Walk.Edit
import CrossReference.Proofs.Walk.Frames
import CrossReference.Proofs.Walk.Growth
import CrossReference.Proofs.Walk.Macros
import CrossReference.Proofs.Walk.NameSpaces
import CrossReference.Proofs.Walk.Nodes
import CrossReference.Proofs.Walk.Reaches
import CrossReference.Proofs.Walk.Resolve
import CrossReference.Proofs.Walk.Sharing
import CrossReference.Proofs.Walk.State
import CrossReference.Scan
import CrossReference.Scope
import CrossReference.Scope.Lookup
import CrossReference.Snapshot
import CrossReference.SourceUnit
import CrossReference.Symbol
import CrossReference.SymbolTable
import CrossReference.SymbolTable.Assemble
import CrossReference.SystemError
import CrossReference.Text.Blank
import CrossReference.Text.Extent
import CrossReference.Text.Numeral
import CrossReference.Text.Utf8
import CrossReference.TranslationUnit
import CrossReference.TranslationUnit.Collect
import CrossReference.TranslationUnit.Edit
import CrossReference.Walk.Frame
import CrossReference.Walk.Qualified
import CrossReference.Walk.Resolve
import CrossReference.Walk.Run
import CrossReference.Walk.State
import CrossReference.Walk.Visit
import CrossReference.Workspace
import CrossReference.Proofs.SourceUnit.Locations
import CrossReference.Proofs.Walk.Spelling
import CrossReference.Proofs.SymbolTable.Rearrange
import CrossReference.Proofs.Text.Numeral
import CrossReference.Proofs.Json
import CrossReference.Proofs.SymbolTable.Json
import CrossReference.Proofs.Walk.Owners
import CrossReference.Proofs.SourceUnit.Forest
import CrossReference.Proofs.Walk.Homes
import CrossReference.Proofs.Walk.Members
import CrossReference.Proofs.Walk.Contexts
import CrossReference.Proofs.Walk.Placements
import CrossReference.Proofs.SourceUnit.HomeScopes
import CrossReference.Proofs.TranslationUnit.Forest
import CrossReference.Proofs.SourceUnit.ActiveNames
import CrossReference.Proofs.SourceUnit.DeclarationReferences
import CrossReference.Proofs.TranslationUnit.Replay
import CrossReference.Proofs.SourceUnit.Replay
import CrossReference.Proofs.Walk.Bound
import CrossReference.Proofs.Walk.Owned
import CrossReference.Proofs.SourceUnit.Keys
import CrossReference.Proofs.Scan
import CrossReference.Proofs.Walk.Waiting
import CrossReference.Proofs.Walk.Pending
import CrossReference.Proofs.Walk.UseOrder
import CrossReference.Proofs.Walk.UseSpaces
import CrossReference.Proofs.Walk.Namespaces
import CrossReference.Proofs.Walk.Located
import CrossReference.Proofs.SourceUnit.NamespacePaths
import CrossReference.Proofs.Scope.Later
import CrossReference.Proofs.Scope.Extends
import CrossReference.Proofs.Walk.ScopeTree
import CrossReference.Proofs.Walk.Inside
import CrossReference.Proofs.Walk.FirstSegment
import CrossReference.Proofs.Walk.Parameters
import CrossReference.Proofs.SourceUnit.TemplateParameters
import CrossReference.Proofs.Walk.Sees
import CrossReference.Proofs.Walk.Declarators
import CrossReference.Proofs.SourceUnit.FunctionParameters
import CrossReference.Proofs.Walk.TypeScopes
import CrossReference.Proofs.Walk.Qualifiers
import CrossReference.Proofs.Walk.Undeclared
import CrossReference.Proofs.Walk.OwnerScope
import CrossReference.Proofs.SourceUnit.OutOfLine
import CrossReference.Proofs.Walk.Blocks
import CrossReference.Proofs.SourceUnit.Lambdas
import CrossReference.Proofs.SourceUnit.Initializers
import CrossReference.Proofs.ParseTree.Identities
import CrossReference.Proofs.Walk.NodeOccurrences
import CrossReference.Proofs.Walk.AccessedMembers
import CrossReference.Proofs.SourceUnit.MemberChains
import CrossReference.Proofs.TranslationUnit.DepthFirst
import CrossReference.Proofs.Position.Starts
import CrossReference.Proofs.Position.Pointers
import CrossReference.Proofs.Condition.Decided
import CrossReference.Proofs.Position.Terminators
import CrossReference.Proofs.Condition.Depth
import CrossReference.Proofs.SymbolTable.Listed
import CrossReference.Proofs.Condition.Arithmetic
import CrossReference.Proofs.Text.Digits
import CrossReference.Proofs.Condition.Integer
import CrossReference.Proofs.SourceUnit.SyntaxErrors
import CrossReference.Proofs.Printing
import CrossReference.Proofs.Scope.Outwards
import CrossReference.Proofs.Walk.ScopeGraph
import CrossReference.Proofs.ParseTree.Nodes
import CrossReference.Proofs.ParseTree.Descent
import CrossReference.Proofs.Walk.Visits
import CrossReference.Proofs.Walk.ClassAround
import CrossReference.Proofs.SourceUnit.CurrentObject
import CrossReference.Proofs.Walk.PartOrder
import CrossReference.Proofs.SourceUnit.SourceOrder
