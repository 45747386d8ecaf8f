import ViewCache.FileTree
import ViewCache.Locator.Session
import ViewCache.Main
import ViewCache.Session.World
import ViewCache.Proofs.Entry.RateLimit
import ViewCache.Proofs.Entry.Expiry
import ViewCache.Proofs.Entry.Provenance
import ViewCache.Proofs.Cache.Isolation
import ViewCache.Proofs.Cache.Whole
import ViewCache.Proofs.Entry.Sequence
import ViewCache.Proofs.Entry.DirectPublish
import ViewCache.Proofs.Entry.Pinning
import ViewCache.Proofs.Entry.Wave
import ViewCache.Proofs.Entry.Handover
import ViewCache.Proofs.Entry.Representation
import ViewCache.Proofs.Entry.Tolerance
import ViewCache.Proofs.Entry.ZeroTimeout
import ViewCache.Proofs.Store.History
import ViewCache.Proofs.Store.View
import ViewCache.Proofs.Store.Creation
import ViewCache.Proofs.Cache.Alone
import ViewCache.Proofs.Locator.History
import ViewCache.Proofs.Locator.Reload
import ViewCache.Proofs.Text.Trim
import ViewCache.Proofs.Uri.Canonical
import ViewCache.Proofs.Uri.Spelling
import ViewCache.Proofs.Locator.Names
import ViewCache.Proofs.Locator.Sharing
import ViewCache.Proofs.Path
import ViewCache.Proofs.Resolver.Containment
import ViewCache.Proofs.Resolver.Search
import ViewCache.Proofs.Uri.Namespace
import ViewCache.Proofs.Registry.Pairs
import ViewCache.Proofs.Entry.Settled
import ViewCache.Proofs.Locator.Threads
import ViewCache.Proofs.Locator.Settled
import ViewCache.Proofs.Resolver.Order
import ViewCache.Proofs.Json.RoundTrip
import ViewCache.Proofs.Cache.Counters
import ViewCache.Proofs.Cache.Keys
import ViewCache.Proofs.Config.Variables
import ViewCache.Proofs.Command.Settings
import ViewCache.Proofs.Json.Skip
import ViewCache.Proofs.Config.Overlay
import ViewCache.Proofs.Locator.Tally
import ViewCache.Proofs.Command.Locate
import ViewCache.Proofs.Json.Document
import ViewCache.Proofs.Command.Report
