import SchemaTypes.Command.Invocation
import SchemaTypes.Fixture.Run
import SchemaTypes.Main
import SchemaTypes.Proofs.Derive.Rearrangement
import SchemaTypes.Proofs.Schema.Conformance
import SchemaTypes.Proofs.Derive.Depth
import SchemaTypes.Proofs.Schema.Keywords
import SchemaTypes.Proofs.Derive.Unheeded
import SchemaTypes.Proofs.Derive.Composition
import SchemaTypes.Proofs.Number.Nearest
import SchemaTypes.Proofs.TypeScript.Reader
import SchemaTypes.Proofs.TypeScript.Words
import SchemaTypes.Proofs.TypeScript.Readable
import SchemaTypes.Proofs.TypeScript.RoundTrip
import SchemaTypes.Proofs.Derive.Distributivity
import SchemaTypes.Proofs.Ty.Join
import SchemaTypes.Proofs.TypeScript.Meaning
import SchemaTypes.Proofs.TypeScript.Declarations
import SchemaTypes.Proofs.Derive.Pruning
import SchemaTypes.Proofs.Files.Tree
import SchemaTypes.Proofs.Command.Run
import SchemaTypes.Proofs.Json.Value
import SchemaTypes.Proofs.FirstValue
import SchemaTypes.Proofs.Ty.View
import SchemaTypes.Proofs.Derive.ObjectFields
import SchemaTypes.Proofs.Command.DeclaredNames
import SchemaTypes.Proofs.Json.RoundTrip
import SchemaTypes.Proofs.Command.IdentityFilter
import SchemaTypes.Proofs.Derive.CacheGrowth
