import PagedCache.Main
import PagedCache.FileTree
import PagedCache.Proofs.Cache.Step
import PagedCache.Proofs.Snapshot.Deliveries
import PagedCache.Proofs.Snapshot.Slice
import PagedCache.Proofs.Cache.KeyHistory
import PagedCache.Proofs.Cache.ServerView
import PagedCache.Proofs.Cache.Settlement
import PagedCache.Proofs.Cache.Shelf
import PagedCache.Proofs.Cache.Capacity
import PagedCache.Proofs.Cache.Recency
import PagedCache.Cache.Procedure
import PagedCache.Proofs.Cache.Refusal
import PagedCache.Proofs.Cache.Procedure
import PagedCache.Proofs.Replay.Refusal
import PagedCache.Proofs.Binary64
import PagedCache.Proofs.Decimal.Digits
import PagedCache.Proofs.Decimal.Shortest
import PagedCache.Proofs.Json.NumberText
import PagedCache.Proofs.Json.Tokens
import PagedCache.Proofs.Json.Documents
import PagedCache.Proofs.OrderedEntries
import PagedCache.Proofs.Json.MemberOrder
import PagedCache.Proofs.Cache.SlotName
import PagedCache.Proofs.Identity
import PagedCache.Proofs.Cache.Clients
import PagedCache.Proofs.Response
import PagedCache.Proofs.Cache.Requests
import PagedCache.Proofs.Registry
import PagedCache.Proofs.Cache.ReadBack
import PagedCache.Proofs.Cache.HeldLists
import PagedCache.Proofs.Cache.WriteBack
import PagedCache.Proofs.Cache.Readings
import PagedCache.Proofs.Cache.Provenance
import PagedCache.Proofs.Settings.Loading
import PagedCache.Proofs.Settings.Layers
import PagedCache.Proofs.Settings.Policies
import PagedCache.Proofs.Snapshot.ArrivalOrder
import PagedCache.Proofs.Snapshot.ReportedEnd
import PagedCache.Proofs.Cache.Conservation
import PagedCache.Registry.Procedure
import PagedCache.Proofs.ByteOrder
import PagedCache.Proofs.Registry.Recipes
import PagedCache.Proofs.Snapshot.Chunks
import PagedCache.Proofs.Cache.ConsecutiveWindows
import PagedCache.Proofs.Cache.Redelivery
import PagedCache.Proofs.Cache.WholePages
import PagedCache.Proofs.Identity.Demands
import PagedCache.Proofs.Response.Faults
import PagedCache.Snapshot.Words
import PagedCache.Proofs.Snapshot.Words
import PagedCache.Proofs.Toml.Texts
import PagedCache.Proofs.Toml.Statements
import PagedCache.Proofs.Toml.Documents
import PagedCache.Proofs.Settings.Text
import PagedCache.Proofs.FileTree
import PagedCache.Proofs.Settings.Saving
