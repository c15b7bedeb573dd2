import FilterSql.Engine.Basic
import FilterSql.Cli.Run
import FilterSql.Main
import FilterSql.Proofs.Outcome
import FilterSql.Proofs.Grammar
import FilterSql.Proofs.ParserSound
import FilterSql.Proofs.ParserComplete
import FilterSql.Proofs.Acceptance
import FilterSql.Proofs.Nesting
import FilterSql.Proofs.CatalogChecked
import FilterSql.Proofs.PlainSql
import FilterSql.Proofs.Placeholders
import FilterSql.Proofs.Outline
import FilterSql.Proofs.Skeleton
import FilterSql.Proofs.EngineRuns
import FilterSql.Proofs.Noninterference
import FilterSql.Proofs.TokenLayout
import FilterSql.Proofs.ClosedCatalog
import FilterSql.Proofs.Interleaving
import FilterSql.Proofs.SqlText
import FilterSql.Proofs.SqlCondition
import FilterSql.Proofs.SqlLayout
import FilterSql.Proofs.NeatLayout
import FilterSql.Proofs.ReadBack
import FilterSql.Proofs.Patterns
import FilterSql.Proofs.RowTruth
import FilterSql.Proofs.SqlMeaning
import FilterSql.Proofs.LeafReading
import FilterSql.Proofs.LeafMeaning
import FilterSql.Proofs.MeaningPreserved
import FilterSql.Proofs.PatternRules
import FilterSql.Proofs.Binding
import FilterSql.Proofs.Typing
import FilterSql.Proofs.LexemeCut
import FilterSql.Proofs.Written
import FilterSql.Proofs.RoundTrip
import FilterSql.Proofs.DialectAgreement
import FilterSql.Proofs.Lexing
import FilterSql.Proofs.Tiling
import FilterSql.Proofs.StringLiterals
import FilterSql.Proofs.FieldNames
import FilterSql.Proofs.CatalogBuilt
import FilterSql.Proofs.OverrideSql
import FilterSql.Proofs.Verdict
import FilterSql.Proofs.ParserVerdict
import FilterSql.Proofs.CorrectPrefix
import FilterSql.Proofs.KeptTokens
import FilterSql.Proofs.SourceSpans
import FilterSql.Proofs.SourceAccount
import FilterSql.Proofs.CacheOrder
import FilterSql.Proofs.LexemeEnds
import FilterSql.Proofs.Respacing
import FilterSql.Proofs.WholeNumerals
import FilterSql.Proofs.FirstFault
import FilterSql.Proofs.IntegerLiterals
import FilterSql.Proofs.Cancellation
import FilterSql.Proofs.CaretLine
import FilterSql.Proofs.CivilClock
import FilterSql.Proofs.JsonPaths
import FilterSql.Proofs.StampText
import FilterSql.Proofs.TimestampSpellings
import FilterSql.Proofs.Descent
import FilterSql.Proofs.DescentEnds
import FilterSql.Proofs.StoredTexts
