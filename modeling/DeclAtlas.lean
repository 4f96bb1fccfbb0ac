import DeclAtlas.CommandLine.Arguments
import DeclAtlas.CommandLine.Run
import DeclAtlas.FileTree.Basic
import DeclAtlas.Glob.Basic
import DeclAtlas.Main
import DeclAtlas.Module.Load
import DeclAtlas.Module.Registry
import DeclAtlas.Module.Resolution
import DeclAtlas.Path.Basic
import DeclAtlas.Pattern.Program
import DeclAtlas.Pattern.Reader
import DeclAtlas.Pattern.Regex
import DeclAtlas.Proofs.Balance
import DeclAtlas.Proofs.BracketScans
import DeclAtlas.Proofs.CanonicalPath
import DeclAtlas.Proofs.Colons
import DeclAtlas.Proofs.Containment
import DeclAtlas.Proofs.DeclarationPrinting
import DeclAtlas.Proofs.DeclarationRoundTrip
import DeclAtlas.Proofs.DeclarationSpans
import DeclAtlas.Proofs.EffectiveSettings
import DeclAtlas.Proofs.Fences
import DeclAtlas.Proofs.GuardedSearch
import DeclAtlas.Proofs.HeritageOrder
import DeclAtlas.Proofs.ImportPrinting
import DeclAtlas.Proofs.ImportRoundTrip
import DeclAtlas.Proofs.Ingestion
import DeclAtlas.Proofs.IngestionOrder
import DeclAtlas.Proofs.Inheritance
import DeclAtlas.Proofs.LexicalPatterns
import DeclAtlas.Proofs.Likeness
import DeclAtlas.Proofs.LineBreaks
import DeclAtlas.Proofs.LineSeparation
import DeclAtlas.Proofs.Loading
import DeclAtlas.Proofs.Lookahead
import DeclAtlas.Proofs.LookupStability
import DeclAtlas.Proofs.MemberPaths
import DeclAtlas.Proofs.MemberReading
import DeclAtlas.Proofs.ModuleSpelling
import DeclAtlas.Proofs.Naming
import DeclAtlas.Proofs.NormalPath
import DeclAtlas.Proofs.ParserLogic
import DeclAtlas.Proofs.Placement
import DeclAtlas.Proofs.RelativeImport
import DeclAtlas.Proofs.Remapping
import DeclAtlas.Proofs.Resolution
import DeclAtlas.Proofs.ResolutionGrowth
import DeclAtlas.Proofs.Respacing
import DeclAtlas.Proofs.RulesAgree
import DeclAtlas.Proofs.Segmentation
import DeclAtlas.Proofs.SideBySide
import DeclAtlas.Proofs.SkippedStatements
import DeclAtlas.Proofs.Spelling
import DeclAtlas.Proofs.StatementSpans
import DeclAtlas.Proofs.StatementsAgree
import DeclAtlas.Proofs.StrippedPath
import DeclAtlas.Proofs.TemplateBytes
import DeclAtlas.Proofs.TemplateGrammar
import DeclAtlas.Proofs.Termination
import DeclAtlas.Proofs.Tokenization
import DeclAtlas.Proofs.Totality
import DeclAtlas.Proofs.TwoRuns
import DeclAtlas.Proofs.TypeArguments
import DeclAtlas.Proofs.TypeParameters
import DeclAtlas.Proofs.TypePrinting
import DeclAtlas.Proofs.TypeReading
import DeclAtlas.Proofs.TypeRoundTrip
import DeclAtlas.Proofs.TypeSpans
import DeclAtlas.Report.Basic
import DeclAtlas.Settings.Basic
import DeclAtlas.Syntax.Cursor
import DeclAtlas.Syntax.Grammar.Class
import DeclAtlas.Syntax.Grammar.Module
import DeclAtlas.Syntax.Grammar.Type
import DeclAtlas.Syntax.Statement
import DeclAtlas.Syntax.TypeExpr
import DeclAtlas.Text.Category
import DeclAtlas.Text.Property
import DeclAtlas.Text.Script
import DeclAtlas.Text.Split
import DeclAtlas.Token.Basic
import DeclAtlas.Token.Lexeme
import DeclAtlas.Toml.Reader
import DeclAtlas.Yaml.Node
import DeclAtlas.Yaml.Scalar
import DeclAtlas.Yaml.Token
