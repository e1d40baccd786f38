import Excerpt.BinaryFraction
import Excerpt.Command.Arguments
import Excerpt.Command.Help
import Excerpt.Command.Invocation
import Excerpt.Command.Run
import Excerpt.Configuration
import Excerpt.Error
import Excerpt.Execution.Assignment
import Excerpt.Execution.Evaluation
import Excerpt.Execution.Modules
import Excerpt.Execution.Run
import Excerpt.Execution.State
import Excerpt.Execution.Statement
import Excerpt.Execution.Value
import Excerpt.Extraction
import Excerpt.Files.Surroundings
import Excerpt.Files.Tree
import Excerpt.Ignore.Glob
import Excerpt.Ignore.Rules
import Excerpt.Ignore.Visit
import Excerpt.Import
import Excerpt.Json.Basic
import Excerpt.Json.Reader
import Excerpt.Main
import Excerpt.Names.Builtin
import Excerpt.Names.Exception
import Excerpt.Names.Library
import Excerpt.Outline
import Excerpt.Process
import Excerpt.Program.Expression
import Excerpt.Program.Reading
import Excerpt.Program.Statement
import Excerpt.Proofs.Agreement
import Excerpt.Proofs.BlockGrammar
import Excerpt.Proofs.CaseGrammar
import Excerpt.Proofs.ClassBody
import Excerpt.Proofs.ClassLookup
import Excerpt.Proofs.ClassNames
import Excerpt.Proofs.ClassReads
import Excerpt.Proofs.Declaration
import Excerpt.Proofs.Effect
import Excerpt.Proofs.ExpressionNames
import Excerpt.Proofs.Forgetting
import Excerpt.Proofs.FromImport
import Excerpt.Proofs.Idempotence
import Excerpt.Proofs.ImportHistory
import Excerpt.Proofs.Mention
import Excerpt.Proofs.ModuleCache
import Excerpt.Proofs.ModulePath
import Excerpt.Proofs.NamePlaces
import Excerpt.Proofs.NameRefs
import Excerpt.Proofs.OperandGrammar
import Excerpt.Proofs.Parsing
import Excerpt.Proofs.Permission
import Excerpt.Proofs.PermittedRun
import Excerpt.Proofs.Placement
import Excerpt.Proofs.PureExpression
import Excerpt.Proofs.Relocation
import Excerpt.Proofs.ScanRecords
import Excerpt.Proofs.ScopeResolution
import Excerpt.Proofs.StatementBindings
import Excerpt.Proofs.StatementGrammar
import Excerpt.Proofs.StatementNames
import Excerpt.Proofs.StrayReturn
import Excerpt.Proofs.StructuralGate
import Excerpt.Proofs.UncertainBlock
import Excerpt.Proofs.UndefinedNames
import Excerpt.Proofs.ValidFunctions
import Excerpt.Scan
import Excerpt.Scope.Basic
import Excerpt.Scope.Scan
import Excerpt.Skeleton
import Excerpt.Source
import Excerpt.Syntax.Grammar.Basic
import Excerpt.Syntax.Grammar.Case
import Excerpt.Syntax.Grammar.Compound
import Excerpt.Syntax.Grammar.Display
import Excerpt.Syntax.Grammar.Expression
import Excerpt.Syntax.Grammar.Operand
import Excerpt.Syntax.Grammar.Parameter
import Excerpt.Syntax.Grammar.Quoted
import Excerpt.Syntax.Grammar.Simple
import Excerpt.Syntax.Grammar.Target
import Excerpt.Syntax.Grammar.TypeHint
import Excerpt.Syntax.Kind
import Excerpt.Syntax.Layout
import Excerpt.Syntax.Parser
import Excerpt.Syntax.Quotation
import Excerpt.Syntax.Source
import Excerpt.Syntax.Token
import Excerpt.Syntax.Tree
import Excerpt.Text.Blank
import Excerpt.Text.Identifier
import Excerpt.Text.NameSet
import Excerpt.Text.Position
import Excerpt.Text.Utf8
import Excerpt.Toml.Basic
import Excerpt.Toml.Reader
import Excerpt.Toml.Writer
import Excerpt.Usage
import Excerpt.Validation
import Excerpt.Verdict
import Excerpt.Proofs.AnnotatedTree
import Excerpt.Proofs.UndefinedNames
import Excerpt.Proofs.Numeral
import Excerpt.Proofs.JsonText
import Excerpt.Proofs.VerdictLine
import Excerpt.Proofs.OpenLine
import Excerpt.Proofs.TomlText
import Excerpt.Proofs.ConfigurationText
import Excerpt.Proofs.Continuation
import Excerpt.Proofs.JoinedExpression
import Excerpt.Proofs.JoinedStatement
import Excerpt.Proofs.JoinedReading
import Excerpt.Proofs.JoinedParts
import Excerpt.Proofs.JoinedLines
import Excerpt.Proofs.DeferredLookups
import Excerpt.Proofs.SkeletonLayout
import Excerpt.Proofs.KnownTruth
import Excerpt.Proofs.StatementOrder
import Excerpt.Proofs.FunctionOrder
import Excerpt.Proofs.EscapingNames
import Excerpt.Proofs.UncertainBindings
import Excerpt.Proofs.PlainImport
import Excerpt.Proofs.RaiseMessage
import Excerpt.Proofs.Reraise
import Excerpt.Proofs.Location
import Excerpt.Proofs.LocatedGrammar
import Excerpt.Proofs.LocatedStatement
import Excerpt.Proofs.CommentLines
import Excerpt.Proofs.UsageWalk
