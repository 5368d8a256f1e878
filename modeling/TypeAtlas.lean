import TypeAtlas.Arena
import TypeAtlas.Codec.Basic
import TypeAtlas.Codec.Image
import TypeAtlas.Codec.Utf8
import TypeAtlas.Database.Basic
import TypeAtlas.Database.Publisher
import TypeAtlas.Database.Query
import TypeAtlas.Database.Session
import TypeAtlas.Draft.Basic
import TypeAtlas.Draft.Call
import TypeAtlas.Draft.Fault
import TypeAtlas.Draft.Layout
import TypeAtlas.Draft.TextTable
import TypeAtlas.Id
import TypeAtlas.Image.Basic
import TypeAtlas.Image.Brief
import TypeAtlas.Image.Fault
import TypeAtlas.Image.Holding
import TypeAtlas.Image.Json
import TypeAtlas.Image.Query
import TypeAtlas.Image.Scope
import TypeAtlas.Image.Stats
import TypeAtlas.Image.Validity
import TypeAtlas.Image.Walk
import TypeAtlas.Inspect
import TypeAtlas.Json
import TypeAtlas.Kind
import TypeAtlas.Ledger.Basic
import TypeAtlas.Ledger.Blocks
import TypeAtlas.Ledger.ChargedArray
import TypeAtlas.Ledger.Shelf
import TypeAtlas.Main
import TypeAtlas.Name.Murmur
import TypeAtlas.Name.Span
import TypeAtlas.Profile
import TypeAtlas.Record.Basic
import TypeAtlas.Record.Flags
import TypeAtlas.Record.Members
import TypeAtlas.Record.Qualifier
import TypeAtlas.Search
import TypeAtlas.Settings
import TypeAtlas.Toml.Document
import TypeAtlas.Toml.Scalar
import TypeAtlas.Toml.Text
import TypeAtlas.Toml.Value
import TypeAtlas.Violation
import TypeAtlas.Wire.Blake3
import TypeAtlas.Wire.Directory
import TypeAtlas.Wire.Fault
import TypeAtlas.Wire.File
import TypeAtlas.Wire.Header
import TypeAtlas.Proofs.Check
import TypeAtlas.Proofs.Text
import TypeAtlas.Proofs.Validity.Passes
import TypeAtlas.Proofs.Validity.Bases
import TypeAtlas.Proofs.Validity.Owners
import TypeAtlas.Proofs.Validity.Trust
import TypeAtlas.Proofs.Query.Genuine
import TypeAtlas.Proofs.Query.Chains
import TypeAtlas.Proofs.Query.Navigation
import TypeAtlas.Proofs.Query.Derivation
import TypeAtlas.Proofs.Layout.Order
import TypeAtlas.Proofs.Layout.Renumber
import TypeAtlas.Proofs.Layout.Image
import TypeAtlas.Proofs.Layout.Regular
import TypeAtlas.Proofs.Draft.Intern
import TypeAtlas.Proofs.Draft.Log
import TypeAtlas.Proofs.Draft.Effect
import TypeAtlas.Proofs.Draft.Step
import TypeAtlas.Proofs.Draft.Agreement
import TypeAtlas.Proofs.Draft.Run
import TypeAtlas.Proofs.Layout.Trust
import TypeAtlas.Proofs.Build.Outcome
import TypeAtlas.Proofs.Build.Renumbering
import TypeAtlas.Proofs.Codec.Exact
import TypeAtlas.Proofs.Codec.Image
import TypeAtlas.Proofs.Codec.Length
import TypeAtlas.Proofs.Layout.Extent
import TypeAtlas.Proofs.Codec.Canonical
import TypeAtlas.Proofs.Wire.Header
import TypeAtlas.Proofs.Wire.File
import TypeAtlas.Proofs.Wire.Damage
import TypeAtlas.Proofs.Wire.Policy
import TypeAtlas.Proofs.Build.Membership
import TypeAtlas.Proofs.Search.Ordered
import TypeAtlas.Proofs.Search.Range
import TypeAtlas.Proofs.Query.Lookup
import TypeAtlas.Proofs.Build.TypeIndex
import TypeAtlas.Proofs.Draft.Names
import TypeAtlas.Proofs.Build.Names
import TypeAtlas.Proofs.Ledger.Charging
import TypeAtlas.Proofs.Build.Charging
import TypeAtlas.Proofs.Draft.InPlace
import TypeAtlas.Proofs.Draft.Refusal
import TypeAtlas.Proofs.Ledger.Tally
import TypeAtlas.Proofs.Ledger.Stock
import TypeAtlas.Proofs.Layout.Spelled
import TypeAtlas.Proofs.Layout.Matching
import TypeAtlas.Proofs.Build.Insertion
import TypeAtlas.Proofs.Ledger.Bearing
import TypeAtlas.Proofs.Ledger.Room
import TypeAtlas.Proofs.Database.Reload
import TypeAtlas.Proofs.Database.Custody
import TypeAtlas.Proofs.Build.Flags
import TypeAtlas.Proofs.Layout.Stripped
import TypeAtlas.Proofs.Wire.Derived
import TypeAtlas.Proofs.Wire.Scopes
import TypeAtlas.Proofs.Draft.Profile
import TypeAtlas.Proofs.Build.Profile
import TypeAtlas.Proofs.Database.Publishing
import TypeAtlas.Proofs.Database.Lending
import TypeAtlas.Proofs.Database.Release
import TypeAtlas.Proofs.Name.Murmur
import TypeAtlas.Proofs.Wire.Blame
import TypeAtlas.Proofs.Ledger.Blocks
import TypeAtlas.Proofs.Validity.Cycles
import TypeAtlas.Proofs.Build.Cycles
import TypeAtlas.Proofs.Validity.Strays
import TypeAtlas.Proofs.Validity.OwnerPass
