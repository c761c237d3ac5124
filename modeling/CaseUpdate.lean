import CaseUpdate.Batch.Compiler
import CaseUpdate.Database.Session
import CaseUpdate.Entity.Declaration
import CaseUpdate.Proofs.Sql.LiteralBody
import CaseUpdate.Proofs.Decimal.Digits
import CaseUpdate.Proofs.Json.Quotes
import CaseUpdate.Proofs.Sql.Documents
import CaseUpdate.Proofs.Sql.Escaping
import CaseUpdate.Proofs.Batch.Entries
import CaseUpdate.Proofs.Batch.Blocks
import CaseUpdate.Proofs.Batch.Plan
import CaseUpdate.Proofs.Batch.Rendering
import CaseUpdate.Proofs.Sql.Scan
import CaseUpdate.Proofs.Batch.Reading
import CaseUpdate.Proofs.Database.Execution
import CaseUpdate.Proofs.Database.Invariant
import CaseUpdate.Proofs.Batch.Alone
import CaseUpdate.Proofs.Batch.Reuse
import CaseUpdate.Proofs.Batch.Faults
import CaseUpdate.Proofs.Database.Interference
import CaseUpdate.Proofs.Database.OneByOne
import CaseUpdate.Proofs.Json.Lexing
import CaseUpdate.Proofs.Json.Parsing
import CaseUpdate.Proofs.Json.Rereading
import CaseUpdate.Proofs.Sql.Structure
import CaseUpdate.Proofs.Database.Keys
import CaseUpdate.Proofs.Database.Updating
import CaseUpdate.Proofs.Batch.Objects
import CaseUpdate.Proofs.Decimal.Nearest
import CaseUpdate.Proofs.Decimal.Shortest
import CaseUpdate.Proofs.Decimal.Positional
import CaseUpdate.Proofs.Json.Reals
import CaseUpdate.Proofs.Decimal.Plain
import CaseUpdate.Proofs.Batch.Stamping
import CaseUpdate.Proofs.Batch.Numerals
import CaseUpdate.Proofs.Target.Listings
import CaseUpdate.Proofs.Database.Caching
import CaseUpdate.Proofs.Sql.Foreign
import CaseUpdate.Proofs.Database.Sending
import CaseUpdate.Proofs.Batch.Patterns
import CaseUpdate.Proofs.Batch.Gates
import CaseUpdate.Proofs.Batch.Raw
import CaseUpdate.Proofs.Batch.Wrapping
import CaseUpdate.Proofs.Entity.Settings
import CaseUpdate.Proofs.Row.Building
import CaseUpdate.Proofs.Entity.Metadata
import CaseUpdate.Proofs.Entity.Regrouping
import CaseUpdate.Proofs.Entity.Consistency
import CaseUpdate.Proofs.Entity.Naming
