import ProviderKit.Json.Parser
import ProviderKit.Value.Access
import ProviderKit.Path.Normalize
import ProviderKit.Diagnostic
import ProviderKit.Plan.Defaults
import ProviderKit.Plan.Unknowns
import ProviderKit.Schema.Validate
import ProviderKit.PrivateState.Basic
import ProviderKit.Plan.Modify
import ProviderKit.Reconcile.Basic
import ProviderKit.Function.Definition
import ProviderKit.Capability
import ProviderKit.Schema.Codec
import ProviderKit.Schema.Build
import ProviderKit.Provider.Basic
import ProviderKit.Catalog.Shelf
import ProviderKit.Server.Serve
import ProviderKit.Trial.Expectation
import ProviderKit.Trial.Tester
import ProviderKit.Scripted.Description.Provider
import ProviderKit.Proofs.Plan.Keeping
import ProviderKit.Proofs.Plan.PlannedDefault
import ProviderKit.Proofs.Plan.Replacement
import ProviderKit.Proofs.PrivateState.Encoding
import ProviderKit.Proofs.Server.Additions
import ProviderKit.Proofs.Server.Readiness
import ProviderKit.Proofs.Server.Presence
import ProviderKit.Proofs.Server.Destruction
import ProviderKit.Proofs.Server.Retention
import ProviderKit.Proofs.Server.Deferred
import ProviderKit.Proofs.Json.Objects
import ProviderKit.Proofs.Text.Base64
import ProviderKit.Proofs.PrivateState.RoundTrip
import ProviderKit.Proofs.Server.Heeding
import ProviderKit.Proofs.Server.Operations
import ProviderKit.Proofs.Server.ProviderData
import ProviderKit.Proofs.Server.PrivateEntries
import ProviderKit.Proofs.Server.Upgrading
import ProviderKit.Proofs.Server.Consent
import ProviderKit.Proofs.Server.Moves
import ProviderKit.Proofs.Server.Served
import ProviderKit.Proofs.Server.Runs
import ProviderKit.Proofs.Server.Configuration
import ProviderKit.Proofs.Server.StoreSetup
import ProviderKit.Proofs.Server.Postponing
import ProviderKit.Proofs.Schema.Behaviours
import ProviderKit.Proofs.Provider.Conduct
import ProviderKit.Proofs.Reconcile.Conducted
import ProviderKit.Proofs.Catalog.Grounded
import ProviderKit.Proofs.Catalog.Lines
import ProviderKit.Proofs.Catalog.Steady
import ProviderKit.Proofs.Listing
import ProviderKit.Proofs.Function.Accepting
import ProviderKit.Proofs.Function.Refusing
import ProviderKit.Proofs.Catalog.Accounts
import ProviderKit.Proofs.Server.Importing
import ProviderKit.Proofs.Server.Shelves
import ProviderKit.Proofs.Server.Composed
import ProviderKit.Proofs.Server.Composition
import ProviderKit.Proofs.Server.Reports
import ProviderKit.Proofs.Server.Calling
import ProviderKit.Proofs.Server.Caching
import ProviderKit.Proofs.Schema.Fitting
import ProviderKit.Proofs.Schema.Validated
import ProviderKit.Proofs.Schema.Written
import ProviderKit.Proofs.Value.Written
import ProviderKit.Proofs.Plan.Traversal
import ProviderKit.Proofs.Server.HandingOver
import ProviderKit.Proofs.Server.Replanning
import ProviderKit.Proofs.Schema.Places
import ProviderKit.Proofs.Plan.Marking
import ProviderKit.Proofs.Plan.Remarking
import ProviderKit.Proofs.Plan.Requests
import ProviderKit.Proofs.Reconcile.Known
import ProviderKit.Proofs.Server.Known
import ProviderKit.Proofs.Plan.Stopping
import ProviderKit.Proofs.Plan.Untouched
import ProviderKit.Proofs.Plan.Replaced
import ProviderKit.Proofs.Schema.Mismatches
import ProviderKit.Proofs.Schema.Visited
import ProviderKit.Proofs.Schema.Resolving
import ProviderKit.Proofs.Schema.Completed
import ProviderKit.Proofs.Schema.Integers
import ProviderKit.Proofs.Schema.Conforming
import ProviderKit.Proofs.Schema.Blurring
import ProviderKit.Proofs.Schema.Omitting
import ProviderKit.Proofs.Schema.Counting
import ProviderKit.Proofs.Schema.Pointing
import ProviderKit.Proofs.Path.Normalizing
import ProviderKit.Proofs.Value.FailedWrites
import ProviderKit.Proofs.Value.Lens
import ProviderKit.Proofs.Value.Patches
import ProviderKit.Proofs.Reconcile.Substituting
import ProviderKit.Proofs.Reconcile.Stable
import ProviderKit.Proofs.Reconcile.Numerals
import ProviderKit.Proofs.Reconcile.Decimals
import ProviderKit.Proofs.Reconcile.Readable
import ProviderKit.Proofs.Number.Shortest
import ProviderKit.Proofs.Number.Spelling
import ProviderKit.Proofs.Json.Unambiguous
import ProviderKit.Proofs.Json.Documents
import ProviderKit.Proofs.Value.Recognised
import ProviderKit.Proofs.Path.Rendering
import ProviderKit.Proofs.Value.Documents
