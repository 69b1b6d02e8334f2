import Provisioning.Attribute
import Provisioning.AttributeSet
import Provisioning.Change
import Provisioning.Configuration
import Provisioning.Connector
import Provisioning.ConnectorKey
import Provisioning.Decimal.Layout
import Provisioning.Decimal.Shortest
import Provisioning.Delivery
import Provisioning.Delta
import Provisioning.Depot
import Provisioning.Facade
import Provisioning.Facade.Operations
import Provisioning.Failure
import Provisioning.Filter
import Provisioning.Filter.Comparison
import Provisioning.Filter.Dialect
import Provisioning.Filter.QueryLanguage
import Provisioning.Host
import Provisioning.Json
import Provisioning.Json.Coded
import Provisioning.Json.Decoder
import Provisioning.Json.Number
import Provisioning.Json.Reader
import Provisioning.Json.Writer
import Provisioning.Lease
import Provisioning.Memory.Connector
import Provisioning.Memory.Stock
import Provisioning.Memory.System
import Provisioning.Merge
import Provisioning.Named
import Provisioning.Naming
import Provisioning.Normalizer
import Provisioning.Normalizer.Rule
import Provisioning.Object
import Provisioning.Operation
import Provisioning.Options
import Provisioning.Pool
import Provisioning.Pool.Exchange
import Provisioning.Pool.Settings
import Provisioning.Registry
import Provisioning.Request
import Provisioning.Schema
import Provisioning.Search
import Provisioning.Stage
import Provisioning.Value
import Provisioning.Wire.Attribute
import Provisioning.Wire.Configuration
import Provisioning.Wire.Filter
import Provisioning.Wire.Schema
import Provisioning.Proofs.Delivery
import Provisioning.Proofs.Stages
import Provisioning.Proofs.Scan
import Provisioning.Proofs.Recheck
import Provisioning.Proofs.Lookups
import Provisioning.Proofs.Reduction
import Provisioning.Proofs.Pool.Exchange
import Provisioning.Proofs.Pool.Limits
import Provisioning.Proofs.Pool.Custody
import Provisioning.Proofs.Observed
import Provisioning.Proofs.Update
import Provisioning.Proofs.Frame
import Provisioning.Proofs.Host.Instances
import Provisioning.Proofs.Host.Custody
import Provisioning.Proofs.Host.Session
import Provisioning.Proofs.Stopping
import Provisioning.Proofs.Changes
import Provisioning.Proofs.Host.Dispatch
import Provisioning.Proofs.Pool.Draining
import Provisioning.Proofs.Json.Text
import Provisioning.Proofs.Json.Forms
import Provisioning.Proofs.Targets
import Provisioning.Proofs.Host.Provenance
import Provisioning.Proofs.Pool.Borrowing
import Provisioning.Proofs.Pool.Eviction
import Provisioning.Proofs.Identity
import Provisioning.Proofs.Conduct
import Provisioning.Proofs.Host.Refusals
import Provisioning.Proofs.Merge
import Provisioning.Proofs.Exactness
import Provisioning.Proofs.Retrieval
import Provisioning.Proofs.FiniteMap
import Provisioning.Proofs.Repetitions
import Provisioning.Proofs.Checks
import Provisioning.Proofs.Admission
import Provisioning.Proofs.Projection
import Provisioning.Proofs.KeyText
import Provisioning.Proofs.QueryCount
import Provisioning.Proofs.Drafts
import Provisioning.Proofs.Schemas
import Provisioning.Proofs.Json.Schemas
import Provisioning.Proofs.Order.Floats
import Provisioning.Proofs.Order.Nearest
import Provisioning.Proofs.Order.Values
import Provisioning.Proofs.Footprint
