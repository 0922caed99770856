import SchemaLang.Main
import SchemaLang.Proofs.Blame
import SchemaLang.Proofs.Failures
import SchemaLang.Proofs.Joining
import SchemaLang.Proofs.RoundTrip
import SchemaLang.Proofs.Spacing
import SchemaLang.Proofs.Session
import SchemaLang.Proofs.Tracing
import SchemaLang.Proofs.RunLaws
import SchemaLang.Proofs.Progress
import SchemaLang.Proofs.Rollback
import SchemaLang.Proofs.Fatality
import SchemaLang.Proofs.Placement
import SchemaLang.Proofs.Safety
import SchemaLang.Proofs.Meaning
import SchemaLang.Proofs.Extent
import SchemaLang.Proofs.Nesting
import SchemaLang.Proofs.Quotation
import SchemaLang.Proofs.Listing
import SchemaLang.Proofs.Endings
import SchemaLang.Proofs.Rewriting
import SchemaLang.Proofs.Agreement
import SchemaLang.Proofs.Patterns
import SchemaLang.Proofs.Lexing
import SchemaLang.Proofs.Adjacency
import SchemaLang.Proofs.Tiling
import SchemaLang.Proofs.Literals
import SchemaLang.Proofs.Selection
import SchemaLang.Proofs.EndOfInput
import SchemaLang.Proofs.Separation
import SchemaLang.Proofs.Printing
import SchemaLang.Proofs.Canonical
import SchemaLang.Proofs.Refusals
import SchemaLang.Proofs.Headings
import SchemaLang.Proofs.Likeness
import SchemaLang.Proofs.Counters
import SchemaLang.Proofs.Following
import SchemaLang.Proofs.PathOrder
import SchemaLang.Proofs.Searching
import SchemaLang.Proofs.Findings
import SchemaLang.Proofs.Legibility
