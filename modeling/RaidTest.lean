import RaidTest.Base.Extent
import RaidTest.Base.Cycle
import RaidTest.Base.Trace
import RaidTest.Common
import RaidTest.Stripe.Layout
import RaidTest.Stripe.WellFormed
import RaidTest.Stripe.LayoutLoop
import RaidTest.Stripe.Mapping
import RaidTest.Stripe.Tiling
import RaidTest.Stripe.Submit
import RaidTest.Cache.RamCache
import RaidTest.Mirror.Engine
import RaidTest.Stripe.ReadWrite
import RaidTest.Stripe.FlatArray
import RaidTest.Cache.Flush
import RaidTest.Cache.FlushSpec
import RaidTest.Cache.Access
import RaidTest.Cache.Untouched
import RaidTest.Cache.Visibility
import RaidTest.Cache.Machine
import RaidTest.Cache.Bypass
import RaidTest.Cache.Coherence
import RaidTest.Cache.Finish
import RaidTest.Service.Teardown
import RaidTest.Fuse.Fsync
import RaidTest.Mirror.Agreement
import RaidTest.Mirror.Rebuild
import RaidTest.Base.Ring
import RaidTest.Stripe.Ring
import RaidTest.Volume.Grow
import RaidTest.Base.Bytes
import RaidTest.Journal.Format
import RaidTest.Journal.Scan
import RaidTest.Journal.Recover
import RaidTest.Volume.Load
import RaidTest.Service.Lifecycle
import RaidTest.Journal.Flush
import RaidTest.Base.Redo
import RaidTest.Journal.Replay
import RaidTest.Journal.Interrupt
import RaidTest.Journal.Kept
import RaidTest.Journal.Mirrored
import RaidTest.Service.Destroy
import RaidTest.Base.Codec
import RaidTest.Metadata.Format
import RaidTest.Base.Cut
import RaidTest.Metadata.Drive
import RaidTest.Stripe.Ranges
import RaidTest.Metadata.RoundTrip
import RaidTest.Base.Pick
import RaidTest.Metadata.Latest
import RaidTest.Service.Console
import RaidTest.Service.Commands
import RaidTest.Service.Effects
import RaidTest.Service.Picked
import RaidTest.Service.Agreement
import RaidTest.Stripe.Accounting
import RaidTest.Stripe.Packing
import RaidTest.Stripe.Ratios
import RaidTest.Base.Runs
import RaidTest.Stripe.Entries
import RaidTest.Service.Planner
import RaidTest.Service.Rejected
import RaidTest.Stripe.Completion
import RaidTest.Base.Paths
import RaidTest.Fuse.Table
import RaidTest.Service.Restore
import RaidTest.Service.AutoStart
import RaidTest.Fuse.Bridge
import RaidTest.Fuse.WriteThrough
import RaidTest.Base.Text
import RaidTest.Config.Format
import RaidTest.Config.RoundTrip
import RaidTest.Journal.Bounds
import RaidTest.Journal.Prefix
import RaidTest.Journal.Framing
import RaidTest.Journal.Capacity
import RaidTest.Journal.Verdict
import RaidTest.Base.Bitmap
import RaidTest.Base.Since
import RaidTest.Cache.Packed
import RaidTest.Cache.History
import RaidTest.Base.Spacing
import RaidTest.Cache.Cleaned
import RaidTest.Mirror.Degraded
import RaidTest.Service.Capacity
import RaidTest.Cache.Batch
import RaidTest.Metadata.Best
import RaidTest.Metadata.Unwind
import RaidTest.Metadata.Versions
import RaidTest.Base.Register
import RaidTest.Metadata.Burst
import RaidTest.Metadata.Located
import RaidTest.Fuse.Rename
import RaidTest.Fuse.Accounting
import RaidTest.Fuse.Visible
import RaidTest.Fuse.ShortWrite
import RaidTest.Stripe.Checked
import RaidTest.Stripe.Faultless
import RaidTest.Metadata.Usable
import RaidTest.Fuse.Isolation
import RaidTest.Base.Feedback
import RaidTest.Journal.Checksum
import RaidTest.Base.Fifo
import RaidTest.Stripe.Fifo
import RaidTest.Mirror.Counters
import RaidTest.Service.PoolSizes
import RaidTest.Base.Numeral
import RaidTest.Service.Arguments
import RaidTest.Service.EventLog
import RaidTest.Base.Slots
import RaidTest.Stripe.Profiler
import RaidTest.Base.Pairing
import RaidTest.Service.Raid10
import RaidTest.Base.Walk
import RaidTest.Fuse.Listing
import RaidTest.Base.AtomicMax
import RaidTest.Fuse.Highest
import RaidTest.Service.Restart
import RaidTest.Stripe.Aligned
import RaidTest.Service.SelfTest
import RaidTest.Gui.Cancel
import RaidTest.Gui.Log
