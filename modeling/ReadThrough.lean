import ReadThrough.Bounded
import ReadThrough.Bounds
import ReadThrough.Cache.Basic
import ReadThrough.Cache.Read
import ReadThrough.Cache.Window
import ReadThrough.Cache.Write
import ReadThrough.Change
import ReadThrough.Fault
import ReadThrough.Fronted
import ReadThrough.Index
import ReadThrough.Json.Basic
import ReadThrough.Json.Numeral
import ReadThrough.Json.Reader
import ReadThrough.Json.Record
import ReadThrough.Json.Skip
import ReadThrough.Lock.Basic
import ReadThrough.Lock.Threads
import ReadThrough.Network.Basic
import ReadThrough.Network.Command
import ReadThrough.Network.Delivery
import ReadThrough.Network.Reading
import ReadThrough.Number.Binary64
import ReadThrough.Number.Shortest
import ReadThrough.Number.Unsigned
import ReadThrough.Proofs.Bounded.Inclusion
import ReadThrough.Proofs.Bounded.Keyed
import ReadThrough.Proofs.Bounded.Lineup
import ReadThrough.Proofs.Bounded.Occupancy
import ReadThrough.Proofs.Bounded.Refinement
import ReadThrough.Proofs.Cache.Activity
import ReadThrough.Proofs.Cache.Aging
import ReadThrough.Proofs.Cache.Agreeing
import ReadThrough.Proofs.Cache.Asking
import ReadThrough.Proofs.Cache.Changes
import ReadThrough.Proofs.Cache.Coherence
import ReadThrough.Proofs.Cache.Exactness
import ReadThrough.Proofs.Cache.Handling
import ReadThrough.Proofs.Cache.Journal
import ReadThrough.Proofs.Cache.Lookups
import ReadThrough.Proofs.Cache.Phrases
import ReadThrough.Proofs.Cache.Reachable
import ReadThrough.Proofs.Cache.Reading
import ReadThrough.Proofs.Cache.Rebinding
import ReadThrough.Proofs.Cache.Room
import ReadThrough.Proofs.Cache.Storing
import ReadThrough.Proofs.Cache.Tally
import ReadThrough.Proofs.Cache.Window
import ReadThrough.Proofs.Fronted.Direct
import ReadThrough.Proofs.Fronted.Mirroring
import ReadThrough.Proofs.Fronted.Repeats
import ReadThrough.Proofs.Fronted.Sequential
import ReadThrough.Proofs.Fronted.Simulation
import ReadThrough.Proofs.Lock.Accounts
import ReadThrough.Proofs.Lock.Exclusion
import ReadThrough.Proofs.Lock.Interleaving
import ReadThrough.Proofs.Lock.Waiting
import ReadThrough.Proofs.Lock.Waking
import ReadThrough.Proofs.Network.Attachment
import ReadThrough.Proofs.Network.Commands
import ReadThrough.Proofs.Network.Descent
import ReadThrough.Proofs.Network.Editing
import ReadThrough.Proofs.Network.Errands
import ReadThrough.Proofs.Network.Fanout
import ReadThrough.Proofs.Network.Handled
import ReadThrough.Proofs.Network.Links
import ReadThrough.Proofs.Network.Meddling
import ReadThrough.Proofs.Network.Nodes
import ReadThrough.Proofs.Network.Orders
import ReadThrough.Proofs.Network.Quiescence
import ReadThrough.Proofs.Network.Reach
import ReadThrough.Proofs.Network.Reading
import ReadThrough.Proofs.Network.Relaying
import ReadThrough.Proofs.Network.Stack
import ReadThrough.Proofs.Network.Subscriptions
import ReadThrough.Proofs.Network.Upkeep
import ReadThrough.Proofs.Network.Wiring
import ReadThrough.Proofs.Network.Writing
import ReadThrough.Proofs.Reads.Failing
import ReadThrough.Proofs.Reads.Ranges
import ReadThrough.Proofs.Reads.Scans
import ReadThrough.Proofs.Reads.Serving
import ReadThrough.Proofs.Reads.Shown
import ReadThrough.Proofs.Reads.Windows
import ReadThrough.Proofs.Recency.Chain
import ReadThrough.Proofs.Recency.Lists
import ReadThrough.Proofs.Recency.Refinement
import ReadThrough.Proofs.Recency.Roster
import ReadThrough.Proofs.Recency.Slots
import ReadThrough.Proofs.Recency.Strict
import ReadThrough.Proofs.Recency.Traversal
import ReadThrough.Proofs.Service.Ledger
import ReadThrough.Proofs.Service.Refinement
import ReadThrough.Proofs.Shelf.Announced
import ReadThrough.Proofs.Shelf.Deeds
import ReadThrough.Proofs.Shelf.Distinct
import ReadThrough.Proofs.Shelf.Edited
import ReadThrough.Proofs.Source.Answers
import ReadThrough.Proofs.Source.Flaky
import ReadThrough.Proofs.Table.Audit
import ReadThrough.Proofs.Table.Catalog
import ReadThrough.Proofs.Table.Entries
import ReadThrough.Proofs.Table.Holds
import ReadThrough.Proofs.Table.Ranges
import ReadThrough.Proofs.Table.Refinement
import ReadThrough.Proofs.Tower.Calls
import ReadThrough.Proofs.Tower.Commands
import ReadThrough.Proofs.Tower.Fetches
import ReadThrough.Proofs.Tower.Frugal
import ReadThrough.Proofs.Tower.Itinerary
import ReadThrough.Proofs.Tower.Misses
import ReadThrough.Proofs.Tower.Reading
import ReadThrough.Proofs.Tower.Shape
import ReadThrough.Proofs.Tower.Telling
import ReadThrough.Proofs.Tower.Transparency
import ReadThrough.Proofs.Words.Arithmetic
import ReadThrough.Proofs.Words.Listing
import ReadThrough.Proofs.Words.Positions
import ReadThrough.Proofs.Words.Reading
import ReadThrough.Recency
import ReadThrough.Registry
import ReadThrough.Report
import ReadThrough.Service.Browser
import ReadThrough.Service.Document
import ReadThrough.Service.Exchange
import ReadThrough.Service.MediaType
import ReadThrough.Service.Page
import ReadThrough.Service.Payload
import ReadThrough.Service.Percent
import ReadThrough.Service.Reply
import ReadThrough.Service.Route
import ReadThrough.Settings
import ReadThrough.Shelf
import ReadThrough.Sizing
import ReadThrough.Source
import ReadThrough.Stats
import ReadThrough.Table
import ReadThrough.Timestamp
