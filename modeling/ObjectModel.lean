import ObjectModel.Text.Blank
import ObjectModel.Text.Quoted
import ObjectModel.Text.Shortest
import ObjectModel.Number.Binary64
import ObjectModel.Number.Rate
import ObjectModel.Data.Registry
import ObjectModel.Data.SortedNames
import ObjectModel.Data.Table
import ObjectModel.Identity
import ObjectModel.Error
import ObjectModel.Configuration
import ObjectModel.Method.Signature
import ObjectModel.Method.Basic
import ObjectModel.Value
import ObjectModel.Lookup.Stamp
import ObjectModel.Lookup.Level
import ObjectModel.Lookup.Cache
import ObjectModel.Object.Flags
import ObjectModel.Object.Hooks
import ObjectModel.Object.Variables
import ObjectModel.Object.State
import ObjectModel.Object.Pool
import ObjectModel.World.Basic
import ObjectModel.World.Lineage
import ObjectModel.World.Lookup
import ObjectModel.World.Definition
import ObjectModel.World.Lifecycle
import ObjectModel.World.Reflection
import ObjectModel.Program.Query
import ObjectModel.Program.Operation
import ObjectModel.Program.Script
import ObjectModel.Program.Delivery
import ObjectModel.Proofs.Lineage.Chain
import ObjectModel.Proofs.Lookup.Bare
import ObjectModel.Proofs.Lookup.Validity
import ObjectModel.Proofs.Lookup.Recollection
import ObjectModel.Proofs.World.Change
import ObjectModel.Proofs.World.Stamping
import ObjectModel.Proofs.Program.Effect
import ObjectModel.Proofs.Lookup.Order
import ObjectModel.Proofs.Lineage.Stamps
import ObjectModel.Proofs.Program.SuperCall
import ObjectModel.Proofs.Program.Transparency
import ObjectModel.Proofs.Program.SuperChain
import ObjectModel.Proofs.Lineage.Walk
import ObjectModel.Proofs.Lineage.Forest
import ObjectModel.Proofs.World.Outline
import ObjectModel.Proofs.Lineage.Sharing
import ObjectModel.Proofs.Program.Trace
import ObjectModel.Proofs.Program.Protocol
import ObjectModel.Proofs.World.Registration
import ObjectModel.Proofs.Program.Responds
import ObjectModel.Proofs.Lookup.Exposure
import ObjectModel.Proofs.World.Veil
import ObjectModel.Proofs.Program.Behind
import ObjectModel.Proofs.Program.Answers
import ObjectModel.Proofs.Program.Keeping
import ObjectModel.Proofs.Program.Step
import ObjectModel.Proofs.Program.Pairing
import ObjectModel.Proofs.Program.Pooling
import ObjectModel.Proofs.Program.Observation
import ObjectModel.Proofs.Program.Heeding
import ObjectModel.Proofs.Program.Direct
import ObjectModel.Proofs.Program.Way
import ObjectModel.Proofs.Program.Running
import ObjectModel.Proofs.Program.Refusal
import ObjectModel.Proofs.World.Handlers
import ObjectModel.Proofs.World.Snapshot
import ObjectModel.Proofs.Text.ByteOrder
import ObjectModel.Proofs.Program.Introspection
import ObjectModel.Proofs.Lookup.Asking
import ObjectModel.Proofs.Program.Serving
import ObjectModel.Proofs.Program.Accounting
import ObjectModel.Proofs.Program.Built
import ObjectModel.Proofs.Program.Safety
import ObjectModel.Proofs.Program.Arity
import ObjectModel.Proofs.Text.Trimming
import ObjectModel.Proofs.Configuration.Settings
import ObjectModel.Proofs.Value.Equality
import ObjectModel.Proofs.World.Cleanness
import ObjectModel.Proofs.World.Giving
import ObjectModel.Proofs.World.Flags
import ObjectModel.Proofs.Program.Naming
import ObjectModel.Proofs.Program.Accessors
import ObjectModel.Proofs.Program.Invocation
