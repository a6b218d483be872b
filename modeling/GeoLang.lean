import GeoLang.Main
import GeoLang.Source.Excerpt
import GeoLang.Tree.Listing
import GeoLang.Proofs.Reading.Outcome
import GeoLang.Proofs.Reading.Expression
import GeoLang.Proofs.Reading.Declaration
import GeoLang.Proofs.Reading.Statement
import GeoLang.Proofs.Reading.Program
import GeoLang.Proofs.Reading.Composed
import GeoLang.Proofs.Spelling.Expression
import GeoLang.Proofs.Spelling.Statement
import GeoLang.Proofs.Spelling.Program
import GeoLang.Proofs.Sentence.Bare
import GeoLang.Proofs.Sentence.Grammar
import GeoLang.Proofs.Sentence.Expression
import GeoLang.Proofs.Sentence.Simple
import GeoLang.Proofs.Sentence.Statement
import GeoLang.Proofs.Sentence.Program
import GeoLang.Proofs.Lexical.Tiling
import GeoLang.Proofs.Shape.Expression
import GeoLang.Proofs.Shape.Program
import GeoLang.Proofs.Source.Place
import GeoLang.Proofs.Extent.Analysis
import GeoLang.Proofs.Lexical.Rewriting
import GeoLang.Proofs.Reader.Run
import GeoLang.Proofs.Reading.Consumption
import GeoLang.Proofs.Reader.Invariant
import GeoLang.Proofs.Braces.Count
import GeoLang.Proofs.Braces.Nesting
import GeoLang.Proofs.Braces.Block
import GeoLang.Proofs.Braces.Attempt
import GeoLang.Proofs.Braces.Placeholder
import GeoLang.Proofs.Reader.EndOfText
import GeoLang.Proofs.Reader.Comments
import GeoLang.Proofs.Locality.Program
import GeoLang.Proofs.Depth.Program
import GeoLang.Proofs.Checks.Expression
import GeoLang.Proofs.Checks.Program
import GeoLang.Proofs.Extent.Shuffled
import GeoLang.Proofs.Layout.Construct
import GeoLang.Proofs.Layout.Order
import GeoLang.Proofs.Layout.Forest
import GeoLang.Proofs.Layout.Tree
import GeoLang.Proofs.Layout.Expression
import GeoLang.Proofs.Layout.Statement
import GeoLang.Proofs.Layout.Program
import GeoLang.Proofs.Errors.Expression
import GeoLang.Proofs.Errors.Program
import GeoLang.Proofs.Errors.Place
import GeoLang.Proofs.Height.Tree
import GeoLang.Proofs.Height.Reading
import GeoLang.Proofs.Height.Program
import GeoLang.Proofs.Lexical.LineFeed
import GeoLang.Proofs.Lexical.Joining
import GeoLang.Proofs.Lexical.Sign
import GeoLang.Proofs.Locality.Concatenation
import GeoLang.Proofs.Recovery.Notes
import GeoLang.Proofs.Recovery.Skip
import GeoLang.Proofs.Recovery.Header
import GeoLang.Proofs.Threshold.Expression
import GeoLang.Proofs.Threshold.Conditional
import GeoLang.Proofs.Threshold.Text
import GeoLang.Proofs.Threshold.Assignment
import GeoLang.Proofs.Threshold.Declaration
import GeoLang.Proofs.Threshold.Analysis
import GeoLang.Proofs.Outline.Program
import GeoLang.Proofs.Lexical.Symbol
import GeoLang.Proofs.Lexical.Numeral
import GeoLang.Proofs.Sight.Program
import GeoLang.Proofs.Sight.Assignment
import GeoLang.Proofs.Recovery.Synchronization
