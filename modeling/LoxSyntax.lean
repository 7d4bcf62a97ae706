import LoxSyntax.Descent
import LoxSyntax.Main
import LoxSyntax.Session
import LoxSyntax.Proofs.Grammar.Completeness
import LoxSyntax.Proofs.Grammar.CorrectPrefix
import LoxSyntax.Proofs.Lexeme.Grammar
import LoxSyntax.Proofs.Lexeme.MaximalMunch
import LoxSyntax.Proofs.TokenStream.History
import LoxSyntax.Proofs.TokenStream.Lines
import LoxSyntax.Proofs.Grammar.Extent
import LoxSyntax.Proofs.Session.Safety
import LoxSyntax.Proofs.CommandLine.Agreement
import LoxSyntax.Proofs.Number.ReadBack
import LoxSyntax.Proofs.Number.NaturalText
import LoxSyntax.Proofs.Token.Text
import LoxSyntax.Proofs.Expr.UniqueReading
import LoxSyntax.Proofs.Lexeme.Boundary
import LoxSyntax.Proofs.TokenStream.Resumption
import LoxSyntax.Proofs.TokenStream.Rendering
import LoxSyntax.Proofs.TokenStream.Layout
import LoxSyntax.Proofs.Expr.Rescan
import LoxSyntax.Proofs.Grammar.LaterTokens
import LoxSyntax.Proofs.Grammar.NestingLimit
import LoxSyntax.Proofs.Session.Independence
import LoxSyntax.Proofs.Session.Exhaustion
import LoxSyntax.Proofs.TokenStream.GoodPrefix
import LoxSyntax.Proofs.TokenStream.Concatenation
import LoxSyntax.Proofs.CommandLine.LineEnds
import LoxSyntax.Proofs.Number.LosslessText
import LoxSyntax.Proofs.Expr.PrintedNumber
import LoxSyntax.Proofs.CommandLine.Listing
import LoxSyntax.Proofs.CommandLine.ShortForms
import LoxSyntax.Proofs.TokenStream.Strays
import LoxSyntax.Proofs.Grammar.Height
import LoxSyntax.Proofs.Grammar.BoundedRecursion
