import BuilderApi.Builder.Call
import BuilderApi.Main
import BuilderApi.Proofs.Results
import BuilderApi.Proofs.Schema.Walk
import BuilderApi.Proofs.Json.Keyed
import BuilderApi.Proofs.Schema.Leaves
import BuilderApi.Proofs.Schema.Unions
import BuilderApi.Proofs.Script.Accessors
import BuilderApi.Proofs.Builder.Unknown
import BuilderApi.Proofs.Reference.Written
import BuilderApi.Proofs.Reference.Sections
import BuilderApi.Proofs.Reference.Outline
import BuilderApi.Proofs.Members
import BuilderApi.Proofs.Json.Nearest
import BuilderApi.Proofs.Json.Numeral
import BuilderApi.Proofs.Json.NumberText
import BuilderApi.Proofs.Json.Reading
import BuilderApi.Proofs.Json.Nesting
import BuilderApi.Proofs.Json.Grammar
import BuilderApi.Proofs.Json.PassedOver
import BuilderApi.Proofs.Json.Unfinished
import BuilderApi.Proofs.Json.Locality
import BuilderApi.Proofs.Script.Token
import BuilderApi.Proofs.Script.Grammar
import BuilderApi.Proofs.Json.Everywhere
import BuilderApi.Proofs.Json.Merge
import BuilderApi.Proofs.Json.Settled
import BuilderApi.Proofs.Json.Repeated
import BuilderApi.Proofs.Json.Nulls
import BuilderApi.Proofs.Json.Rearranged
import BuilderApi.Proofs.Script.Literal
import BuilderApi.Proofs.Script.Cascade
import BuilderApi.Proofs.Table.Accepted
import BuilderApi.Proofs.Table.Origins
import BuilderApi.Proofs.Table.Finished
import BuilderApi.Proofs.Table.WellFormed
import BuilderApi.Proofs.Table.Declared
import BuilderApi.Proofs.Table.Priority
import BuilderApi.Proofs.Table.Documented
import BuilderApi.Proofs.Table.Reordering
import BuilderApi.Proofs.Script.Calls
import BuilderApi.Proofs.Script.Draft
import BuilderApi.Proofs.Script.Imports
import BuilderApi.Proofs.Script.Sources
import BuilderApi.Proofs.Script.ReadBack
import BuilderApi.Proofs.Script.Assignments
import BuilderApi.Proofs.Script.TopLevel
import BuilderApi.Proofs.Script.Form
import BuilderApi.Proofs.Script.Serializer
import BuilderApi.Proofs.Builder.Identifiers
import BuilderApi.Proofs.Builder.Proxies
import BuilderApi.Proofs.Builder.Standing
import BuilderApi.Proofs.Builder.Footprint
import BuilderApi.Proofs.Builder.Accretion
import BuilderApi.Proofs.Builder.Regrouped
import BuilderApi.Proofs.Builder.Spread
import BuilderApi.Proofs.Builder.Closed
import BuilderApi.Proofs.Files.Parents
import BuilderApi.Proofs.Files.Places
import BuilderApi.Proofs.Files.Directories
import BuilderApi.Proofs.Output.Batch
import BuilderApi.Proofs.Output.Trailing
import BuilderApi.Proofs.Output.Correspondence
import BuilderApi.Proofs.Output.Paths
import BuilderApi.Proofs.Output.Links
import BuilderApi.Proofs.Catalog.Expansion
import BuilderApi.Proofs.Catalog.Closed
