import EdgeQuery.Main
import EdgeQuery.Proofs.Calls
import EdgeQuery.Proofs.Clause
import EdgeQuery.Proofs.Clause.Complete
import EdgeQuery.Proofs.CommandLine
import EdgeQuery.Proofs.Dialect
import EdgeQuery.Proofs.Duration
import EdgeQuery.Proofs.Expr.Grouping
import EdgeQuery.Proofs.Expr.Parenthesized
import EdgeQuery.Proofs.Fault
import EdgeQuery.Proofs.Nesting
import EdgeQuery.Proofs.OpenDelimiters
import EdgeQuery.Proofs.Position.Order
import EdgeQuery.Proofs.Query.Balance
import EdgeQuery.Proofs.Reference.Extent
import EdgeQuery.Proofs.Safety
import EdgeQuery.Proofs.SourceFile.Comments
import EdgeQuery.Proofs.SourceFile.Complete
import EdgeQuery.Proofs.SourceFile.Recovery
import EdgeQuery.Proofs.SourceFile.Relayout
import EdgeQuery.Proofs.SourceFile.RoundTrip
import EdgeQuery.Proofs.SourceFile.Segments
import EdgeQuery.Proofs.SourceFile.Separated
import EdgeQuery.Proofs.SourceFile.Single
import EdgeQuery.Proofs.SourceFile.Termination
import EdgeQuery.Proofs.Statement.Clauses
import EdgeQuery.Proofs.Statement.Respelled
import EdgeQuery.Proofs.Token.Delimited
import EdgeQuery.Proofs.Token.Genuine
import EdgeQuery.Proofs.Token.Number
import EdgeQuery.Proofs.Token.Rescan
import EdgeQuery.Proofs.ViablePrefix
import EdgeQuery.Proofs.WellFormed
