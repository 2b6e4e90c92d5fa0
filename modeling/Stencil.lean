import Stencil.Appliance.Simulated
import Stencil.Cache.Flight
import Stencil.Main
import Stencil.Proofs.NameMap
import Stencil.Proofs.Op
import Stencil.Proofs.Record.RoundTrip
import Stencil.Proofs.Text.Words
import Stencil.Proofs.Record.Grouping
import Stencil.Record.Group
import Stencil.Record.Listing
import Stencil.Text.Similar
import Stencil.Proofs.Record.Listing
import Stencil.Proofs.Appliance.Commands
import Stencil.Proofs.Store.Collection
import Stencil.Proofs.Store.Appliance
import Stencil.Proofs.Json.Grammar
import Stencil.Proofs.Json.Numerals
import Stencil.Proofs.Json.Printed
import Stencil.Proofs.Json.Fill
import Stencil.Proofs.Json.Merged
import Stencil.Proofs.Json.Slots
import Stencil.Proofs.Template.Compiled
import Stencil.Proofs.Template.Stitching
import Stencil.Proofs.Template.Substitution
import Stencil.Proofs.Template.Insertion
import Stencil.Proofs.Template.Parameters
import Stencil.Proofs.Template.Segments
import Stencil.Proofs.Schema.Objects
import Stencil.Proofs.Template.Validation
import Stencil.Task
import Stencil.Catalog.Shared
import Stencil.Proofs.Cache.Fetch
import Stencil.Proofs.Catalog.ContentHash
import Stencil.Proofs.Catalog.Coherence
import Stencil.Proofs.Catalog.Writes
import Stencil.Proofs.Catalog.Folder
import Stencil.Proofs.Catalog.Offers
import Stencil.Proofs.Catalog.Uploaded
import Stencil.Proofs.Catalog.Provenance
import Stencil.Proofs.Catalog.Freshness
import Stencil.Proofs.Catalog.Alone
import Stencil.Proofs.Files.Paths
import Stencil.Proofs.Files.Steps
import Stencil.Store.Outage
import Stencil.Proofs.Template.Bundle
import Stencil.Proofs.Task
import Stencil.Proofs.Store.Reading
import Stencil.Proofs.Store.Conversation
import Stencil.Cache.Indexed
import Stencil.Proofs.Cache.Changes
import Stencil.Proofs.Cache.SingleFlight
import Stencil.Proofs.Cache.Indexed
import Stencil.Files.Outage
import Stencil.Proofs.Files.Replace
import Stencil.Proofs.Catalog.Durability
import Stencil.Catalog.SharedFolder
import Stencil.Proofs.Template.Declarations
import Stencil.Proofs.Template.Tokens
import Stencil.Proofs.Catalog.Names
import Stencil.Proofs.Files.Listing
import Stencil.Proofs.Catalog.Confinement
import Stencil.Proofs.Catalog.Listed
import Stencil.Proofs.Catalog.FolderHistory
import Stencil.Proofs.Catalog.Forgotten
import Stencil.Proofs.Catalog.FolderAlone
import Stencil.Proofs.Record.Gaps
import Stencil.Proofs.Template.Checked
import Stencil.Proofs.Files.Spared
import Stencil.Proofs.Cache.Failure
import Stencil.Proofs.Template.SpelledOut
import Stencil.Proofs.Template.Defaults
import Stencil.Proofs.Template.Influence
import Stencil.Proofs.Template.Omitted
import Stencil.Proofs.Record.Consistency
import Stencil.Proofs.Store.Distinct
import Stencil.Proofs.Catalog.Order
import Stencil.Proofs.Appliance.Contents
import Stencil.Proofs.Store.Reopened
import Stencil.Files.Replace
import Stencil.Files.Volume
import Stencil.Proofs.Files.Writing
import Stencil.Proofs.Files.Links
import Stencil.Proofs.Files.Mirrored
