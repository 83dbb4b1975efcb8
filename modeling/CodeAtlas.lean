import CodeAtlas.Cypher.Serve
import CodeAtlas.Decimal.Fixed
import CodeAtlas.Main
import CodeAtlas.Proofs.Cypher.Failures
import CodeAtlas.Proofs.Cypher.Injection
import CodeAtlas.Proofs.Enrichment.Courses
import CodeAtlas.Proofs.Enrichment.Draining
import CodeAtlas.Proofs.Enrichment.History
import CodeAtlas.Proofs.Enrichment.Holdings
import CodeAtlas.Proofs.Enrichment.InFlight
import CodeAtlas.Proofs.Enrichment.Offering
import CodeAtlas.Proofs.Enrichment.Runs
import CodeAtlas.Proofs.Enrichment.Surroundings
import CodeAtlas.Proofs.Files.Links
import CodeAtlas.Proofs.Files.RealPath
import CodeAtlas.Proofs.Files.Writes
import CodeAtlas.Proofs.Graph.Answers
import CodeAtlas.Proofs.Graph.Canonical
import CodeAtlas.Proofs.Graph.Consistent
import CodeAtlas.Proofs.Graph.ElementTexts
import CodeAtlas.Proofs.Graph.Ids
import CodeAtlas.Proofs.Graph.Persistence
import CodeAtlas.Proofs.Graph.Reached
import CodeAtlas.Proofs.Graph.Refinement
import CodeAtlas.Proofs.Graph.Shared
import CodeAtlas.Proofs.Graph.UnsavedChanges
import CodeAtlas.Proofs.Graph.UsableDocuments
import CodeAtlas.Proofs.Indexing.CallHistory
import CodeAtlas.Proofs.Indexing.Enqueueing
import CodeAtlas.Proofs.Indexing.Freshness
import CodeAtlas.Proofs.Indexing.Idempotence
import CodeAtlas.Proofs.Indexing.ImportOrder
import CodeAtlas.Proofs.Indexing.Interleaving
import CodeAtlas.Proofs.Indexing.Isolation
import CodeAtlas.Proofs.Indexing.Outages
import CodeAtlas.Proofs.Indexing.Overlap
import CodeAtlas.Proofs.Indexing.Refusals
import CodeAtlas.Proofs.Indexing.Rounds
import CodeAtlas.Proofs.Path.Resolution
import CodeAtlas.Proofs.Program.Ends
import CodeAtlas.Proofs.Program.Exchanges
import CodeAtlas.Proofs.Program.Views
import CodeAtlas.Proofs.Query.CallContext
import CodeAtlas.Proofs.Query.Elements
import CodeAtlas.Proofs.Query.Fences
import CodeAtlas.Proofs.Query.Reasoning
import CodeAtlas.Proofs.Query.Routing
import CodeAtlas.Proofs.Records.StoredRecords
import CodeAtlas.Proofs.Search.Dominance
import CodeAtlas.Proofs.Search.Results
import CodeAtlas.Proofs.Syntax.Calls
import CodeAtlas.Proofs.Watch.Containment
import CodeAtlas.Proofs.Watch.Debounce
import CodeAtlas.Proofs.Watch.Selection
import CodeAtlas.Proofs.Watch.Stopping
import CodeAtlas.Rehearsal.Collection
import CodeAtlas.Rehearsal.Database
import CodeAtlas.Rehearsal.Transport
import CodeAtlas.Text.Base64
