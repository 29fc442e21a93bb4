import BulkLookup.Table.Chain
import BulkLookup.Table.PairList
import BulkLookup.Text.Results
import BulkLookup.Work.Discipline
import BulkLookup.Work.Countdown
import BulkLookup.Work.Laws
import BulkLookup.Proofs.Number.Exact
import BulkLookup.Proofs.Number.Written
import BulkLookup.Proofs.Text.Quoted
import BulkLookup.Proofs.Table.Path
import BulkLookup.Proofs.Table.Searching
import BulkLookup.Proofs.Table.Editing
import BulkLookup.Proofs.Table.Relinking
import BulkLookup.Proofs.Table.Resizing
import BulkLookup.Proofs.Table.Growing
import BulkLookup.Proofs.Table.Performing
import BulkLookup.Proofs.Table.Rows
import BulkLookup.Proofs.Table.Refinement
import BulkLookup.Proofs.Table.Order
import BulkLookup.Proofs.Table.Capacity
import BulkLookup.Proofs.Table.Events
import BulkLookup.Proofs.Table.Loads
import BulkLookup.Proofs.Table.Membership
import BulkLookup.Proofs.Table.Removing
import BulkLookup.Proofs.Table.Depths
import BulkLookup.Proofs.Table.Ahead
import BulkLookup.Proofs.Work.Steady
import BulkLookup.Proofs.Work.Pools
import BulkLookup.Proofs.Work.Turns
import BulkLookup.Proofs.Work.Flows
import BulkLookup.Proofs.Work.Batches
import BulkLookup.Proofs.Work.Ledger
import BulkLookup.Proofs.Work.Invariants
import BulkLookup.Proofs.Work.Interleaves
import BulkLookup.Proofs.Work.Journeys
import BulkLookup.Proofs.Lookup.Walks
import BulkLookup.Proofs.Lookup.Interleaving
import BulkLookup.Proofs.Work.Completion
import BulkLookup.Proofs.Work.Overtaking
import BulkLookup.Proofs.Lookup.Unreliable
import BulkLookup.Proofs.Lookup.Visits
import BulkLookup.Proofs.Lookup.Shortening
import BulkLookup.Proofs.Work.Resuming
import BulkLookup.Proofs.Work.Likeness
import BulkLookup.Proofs.Work.Rings
import BulkLookup.Proofs.Work.Loads
import BulkLookup.Proofs.Work.Meters
import BulkLookup.Proofs.Work.Overflow
import BulkLookup.Proofs.Lookup.Resources
import BulkLookup.Proofs.Lookup.Overflow
import BulkLookup.Proofs.Work.Refusals
import BulkLookup.Proofs.Work.Rounds
import BulkLookup.Proofs.Work.Waits
import BulkLookup.Proofs.Work.RoundRobin
import BulkLookup.Proofs.Lookup.RoundRobin
