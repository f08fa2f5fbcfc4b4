import ProseMarkup.Compiler
import ProseMarkup.Content.Span
import ProseMarkup.Storage.Load
import ProseMarkup.Style.Basic
import ProseMarkup.Proofs.Runs
import ProseMarkup.Proofs.Occurrence
import ProseMarkup.Proofs.PrefixTree
import ProseMarkup.Proofs.Membership
import ProseMarkup.Proofs.SpanCut
import ProseMarkup.Proofs.Resolution
import ProseMarkup.Proofs.JobEffect
import ProseMarkup.Proofs.JobResolution
import ProseMarkup.Proofs.AnyOrder
import ProseMarkup.Proofs.Sequence
import ProseMarkup.Proofs.HeaderForm
import ProseMarkup.Proofs.SheetGrammar
import ProseMarkup.Proofs.ValidStyle
import ProseMarkup.Proofs.ValidCombination
import ProseMarkup.Proofs.StyleValue
import ProseMarkup.Proofs.LinkScan
import ProseMarkup.Proofs.StyleIndex
import ProseMarkup.Proofs.SourceKept
import ProseMarkup.Proofs.Canonical
import ProseMarkup.Proofs.DepthLimit
import ProseMarkup.Proofs.TextData
import ProseMarkup.Proofs.StoredContent
import ProseMarkup.Proofs.StoredStyle
import ProseMarkup.Proofs.StoredDocument
import ProseMarkup.Proofs.StorageFormat
import ProseMarkup.Proofs.Declarations
import ProseMarkup.Proofs.StoredAgain
import ProseMarkup.Proofs.Comments
import ProseMarkup.Proofs.Declared
import ProseMarkup.Proofs.PrintedSheet
import ProseMarkup.Proofs.EdgeMatter
import ProseMarkup.Proofs.IndexOfStyles
import ProseMarkup.Proofs.WrittenLinks
import ProseMarkup.Proofs.NormalForm
import ProseMarkup.Proofs.PropertiesOnly
import ProseMarkup.Proofs.References
import ProseMarkup.Proofs.Revalidation
import ProseMarkup.Proofs.ManuscriptSource
import ProseMarkup.Proofs.SpanSearch
import ProseMarkup.Proofs.Lookup
import ProseMarkup.Proofs.CombinedIndex
import ProseMarkup.Proofs.ApplicableRules
import ProseMarkup.Proofs.EmptySpans
import ProseMarkup.Proofs.JoinedSheets
import ProseMarkup.Proofs.LinkSyntax
import ProseMarkup.Proofs.EdgeLayout
import ProseMarkup.Proofs.CombinationLaws
import ProseMarkup.Proofs.DelimitedPairs
import ProseMarkup.Proofs.PatternSearch
import ProseMarkup.Proofs.SelectedRule
import ProseMarkup.Proofs.StepCount
import ProseMarkup.Proofs.ForeignItems
import ProseMarkup.Proofs.JoinedTexts
import ProseMarkup.Proofs.CarriageReturns
import ProseMarkup.Proofs.LineEndings
import ProseMarkup.Proofs.ParagraphRuns
