import EntityContract.Api.Binding
import EntityContract.Contract
import EntityContract.Model.Parse
import EntityContract.Model.Server
import EntityContract.Registry.Flatten
import EntityContract.File.Tree
import EntityContract.Main
import EntityContract.Proofs.Association
import EntityContract.Proofs.Json.Value
import EntityContract.Proofs.Json.Equality
import EntityContract.Proofs.Shape.Structure
import EntityContract.Proofs.Shape.Merging
import EntityContract.Proofs.Shape.Lowering
import EntityContract.Proofs.Chain
import EntityContract.Proofs.Registry.Guard
import EntityContract.Proofs.Registry.Flattening
import EntityContract.Proofs.Arena.Labelling
import EntityContract.Proofs.Arena.Building
import EntityContract.Proofs.Arena.Delegation
import EntityContract.Proofs.Validation.Checking
import EntityContract.Proofs.Validation.Objects
import EntityContract.Proofs.Shape.Equality
import EntityContract.Proofs.Registry.Satisfaction
import EntityContract.Proofs.Validation.Acceptance
import EntityContract.Proofs.Json.Extension
import EntityContract.Proofs.Validation.RoundTrip
import EntityContract.Proofs.Validator
import EntityContract.Proofs.Arena.Ending
import EntityContract.Proofs.Json.Joining
import EntityContract.Proofs.Shape.Congruence
import EntityContract.Proofs.Arena.Declaration
import EntityContract.Proofs.Arena.Likeness
import EntityContract.Proofs.Validation.Agreement
import EntityContract.Proofs.Validation.Intersection
import EntityContract.Proofs.Json.Pointer
import EntityContract.Proofs.Validation.Violations
import EntityContract.Proofs.Validation.Twins
import EntityContract.Proofs.Arena.Recursion
import EntityContract.Proofs.Arena.Completion
import EntityContract.Proofs.Registry.Permutation
import EntityContract.Proofs.Validation.Ways
import EntityContract.Proofs.Registry.Normalization
import EntityContract.Proofs.Validation.Normalizing
import EntityContract.Proofs.Document.Bundled
import EntityContract.Proofs.Model.Reading
import EntityContract.Proofs.Model.Input
import EntityContract.Proofs.Model.Argument
import EntityContract.Proofs.Model.Server
import EntityContract.Proofs.Model.Parsing
import EntityContract.Proofs.Model.Listing
import EntityContract.Proofs.Json.Order
import EntityContract.Proofs.Validation.Order
import EntityContract.Proofs.Document.Definitions
import EntityContract.Proofs.Contract
import EntityContract.Proofs.Json.Difference
import EntityContract.Proofs.Validation.Completeness
import EntityContract.Proofs.Validation.Coverage
import EntityContract.Proofs.Validation.Idempotence
import EntityContract.Proofs.Validation.Unions
import EntityContract.Proofs.Validation.Relocation
import EntityContract.Proofs.Validation.Locality
import EntityContract.Proofs.Registry.Leaves
import EntityContract.Proofs.Validation.Sampling
import EntityContract.Proofs.Validation.Smallest
import EntityContract.Proofs.Registry.Indexing
import EntityContract.Proofs.Shape.Mentions
import EntityContract.Proofs.Arena.Dangling
import EntityContract.Proofs.Json.Omission
import EntityContract.Proofs.Validation.Alike
import EntityContract.Proofs.Validation.Undeclared
import EntityContract.Proofs.Shape.Keywords
import EntityContract.Proofs.Validation.Narrowing
import EntityContract.Proofs.Text.Splitting
import EntityContract.Proofs.Validation.Meeting
import EntityContract.Proofs.Api.Routing
import EntityContract.Proofs.Api.Requests
import EntityContract.Proofs.Shape.Orderly
import EntityContract.Proofs.Shape.Requirement
import EntityContract.Proofs.Arena.Naming
import EntityContract.Proofs.Json.Semilattice
import EntityContract.Proofs.Path
