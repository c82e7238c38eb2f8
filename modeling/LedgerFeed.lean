import LedgerFeed.Main
import LedgerFeed.Rehearsal.Script
import LedgerFeed.Run.History
import LedgerFeed.Proofs.World
import LedgerFeed.Proofs.Offering
import LedgerFeed.Proofs.Batch
import LedgerFeed.Proofs.Backfill
import LedgerFeed.Proofs.Live
import LedgerFeed.Proofs.Combined
import LedgerFeed.Proofs.Resume
import LedgerFeed.Proofs.Ordered
import LedgerFeed.Proofs.Handover
import LedgerFeed.Proofs.Interrupted
import LedgerFeed.Proofs.Summary
import LedgerFeed.Proofs.Scene
import LedgerFeed.Proofs.Stopping
import LedgerFeed.Proofs.Tip
import LedgerFeed.Proofs.Bounded
import LedgerFeed.Proofs.Passing
import LedgerFeed.Proofs.Failing
import LedgerFeed.Proofs.Remembering
import LedgerFeed.Proofs.Screening
import LedgerFeed.Proofs.Flight
import LedgerFeed.Proofs.Closed
import LedgerFeed.Proofs.Governed
import LedgerFeed.Proofs.Pacing
import LedgerFeed.Proofs.Setting
import LedgerFeed.Proofs.Due
import LedgerFeed.Proofs.Filling
import LedgerFeed.Proofs.PageSize
import LedgerFeed.Proofs.Entrance
import LedgerFeed.Proofs.Printing
import LedgerFeed.Proofs.Accounting
import LedgerFeed.Proofs.Cursors
import LedgerFeed.Proofs.Partition
import LedgerFeed.Proofs.CatchingUp
import LedgerFeed.Proofs.Stray
import LedgerFeed.Proofs.Gauges
import LedgerFeed.Proofs.Patterns
import LedgerFeed.Proofs.Checking
import LedgerFeed.Proofs.Forms
import LedgerFeed.Proofs.Shape
import LedgerFeed.Proofs.Answer
import LedgerFeed.Proofs.Queue
import LedgerFeed.Proofs.Arithmetic
import LedgerFeed.Proofs.Straggling
