import Drbd.ActLog.Defs
import Drbd.ActLog.Lemmas.Invariant
import Drbd.ActLog.Lemmas.Records
import Drbd.ActLog.Lemmas.Scan
import Drbd.ActLog.Theorems
import Drbd.Admission.Balance
import Drbd.Admission.Defs
import Drbd.Admission.Intervals
import Drbd.Admission.Lemmas.Effects
import Drbd.Admission.Theorems
import Drbd.ApplyAl.Bounds
import Drbd.ApplyAl.Defs
import Drbd.ApplyAl.HotExtents
import Drbd.ApplyAl.Replay
import Drbd.ApplyAl.Slots
import Drbd.AsyncSync.Defs
import Drbd.AsyncSync.Lemmas.Caches
import Drbd.AsyncSync.Theorems
import Drbd.Bitmap.Bulk
import Drbd.Bitmap.Defs
import Drbd.Bitmap.Lemmas.Bits
import Drbd.Bitmap.Lemmas.Find
import Drbd.Bitmap.Lemmas.Flips
import Drbd.Bitmap.Lemmas.Invariant
import Drbd.Bitmap.Lemmas.Pages
import Drbd.Bitmap.Lemmas.Store
import Drbd.Bitmap.Lemmas.Weight
import Drbd.Bitmap.Lemmas.Words
import Drbd.Bitmap.Search
import Drbd.Bitmap.Store
import Drbd.Bitmap.Theorems
import Drbd.Divergence.Defs
import Drbd.Divergence.Lemmas.Invariant
import Drbd.Divergence.Lemmas.Own
import Drbd.Divergence.Theorems
import Drbd.Epoch.Defs
import Drbd.Epoch.Lemmas.Frames
import Drbd.Epoch.Lemmas.Invariant
import Drbd.Epoch.Lemmas.Log
import Drbd.Epoch.Theorems
import Drbd.Framing.Asender
import Drbd.Framing.Defs
import Drbd.Framing.Header
import Drbd.Framing.Lemmas.Reads
import Drbd.Framing.Reassembly
import Drbd.Framing.Theorems
import Drbd.Interval.Defs
import Drbd.Interval.Theorems
import Drbd.Layout.Accepted
import Drbd.Layout.Agree
import Drbd.Layout.Defs
import Drbd.Layout.Drbdmeta
import Drbd.Lib.Bits
import Drbd.Lib.Bytes
import Drbd.Lib.Chain
import Drbd.Lib.Faults
import Drbd.Lib.MovingMean
import Drbd.Lib.Reader
import Drbd.Lib.Ring
import Drbd.Lib.RunLength
import Drbd.Lib.SearchTree
import Drbd.Lib.Serial
import Drbd.Lib.Sweep
import Drbd.Lib.System
import Drbd.Lib.Termination
import Drbd.Lru.Create
import Drbd.Lru.Defs
import Drbd.Lru.Lemmas.Labels
import Drbd.Lru.Lemmas.Refs
import Drbd.Lru.Lemmas.Rep
import Drbd.Lru.Lemmas.Steps
import Drbd.Lru.Ops
import Drbd.Lru.Theorems
import Drbd.Meta.Defs
import Drbd.Meta.Dump
import Drbd.Meta.Lemmas.Layout
import Drbd.Meta.Lemmas.Move
import Drbd.Meta.Lemmas.Open
import Drbd.Meta.Lemmas.Opened
import Drbd.Meta.Lemmas.Parse
import Drbd.Meta.Lemmas.Print
import Drbd.Meta.Lemmas.SuperBlock
import Drbd.Meta.Lemmas.Transfers
import Drbd.Meta.Lemmas.Write
import Drbd.Meta.Restore
import Drbd.Meta.RoundTrip
import Drbd.Meta.Theorems
import Drbd.Noblock.CacheRep
import Drbd.Noblock.Defs
import Drbd.Noblock.Lemmas.Cache
import Drbd.Noblock.Lemmas.Invariant
import Drbd.Noblock.Lemmas.Sync
import Drbd.Noblock.Rounding
import Drbd.Noblock.Theorems
import Drbd.PagePool.Defs
import Drbd.PagePool.Theorems
import Drbd.PeerEpoch.Defs
import Drbd.PeerEpoch.Lemmas.Alive
import Drbd.PeerEpoch.Lemmas.Basic
import Drbd.PeerEpoch.Lemmas.Events
import Drbd.PeerEpoch.Lemmas.Finish
import Drbd.PeerEpoch.Lemmas.Ordered
import Drbd.PeerEpoch.Theorems
import Drbd.PeerSeq.Defs
import Drbd.PeerSeq.Theorems
import Drbd.Request.Defs
import Drbd.Request.Lemmas.Balance
import Drbd.Request.Lemmas.Ending
import Drbd.Request.Lemmas.Events
import Drbd.Request.Lemmas.Invariant
import Drbd.Request.Theorems
import Drbd.Request.Volume
import Drbd.Request.WriteOutcome
import Drbd.ResyncAfter.Defs
import Drbd.ResyncAfter.Lemmas.Graph
import Drbd.ResyncAfter.Lemmas.Pause
import Drbd.ResyncAfter.Lemmas.Settle
import Drbd.ResyncAfter.Lemmas.Visit
import Drbd.ResyncAfter.Theorems
import Drbd.ResyncRequest.Controller
import Drbd.ResyncRequest.Defs
import Drbd.ResyncRequest.InFlight
import Drbd.ResyncRequest.Pass
import Drbd.ResyncRequest.Plan
import Drbd.ResyncRequest.Theorems
import Drbd.Sizes.Defs
import Drbd.Sizes.FailedResize
import Drbd.Sizes.Idempotent
import Drbd.Sizes.Resize
import Drbd.Sizes.Theorems
import Drbd.Snapshot.Defs
import Drbd.Snapshot.Lemmas.Invariant
import Drbd.Snapshot.Theorems
import Drbd.State.AllOrNothing
import Drbd.State.Connection
import Drbd.State.Defs
import Drbd.State.Device
import Drbd.State.Lemmas.Again
import Drbd.State.Lemmas.Sanitize
import Drbd.State.Lemmas.Settled
import Drbd.State.Lemmas.Volumes
import Drbd.State.Theorems
import Drbd.Submit.Defs
import Drbd.Submit.Theorems
import Drbd.Uuid.Compare
import Drbd.Uuid.Defs
import Drbd.Uuid.Lemmas.Mirror
import Drbd.Uuid.Lemmas.Resync
import Drbd.Uuid.Lemmas.Rules
import Drbd.Uuid.Resync
import Drbd.Vli.Defs
import Drbd.Vli.Lemmas.Code
import Drbd.Vli.Lemmas.Stream
import Drbd.Vli.Theorems
import Drbd.Xfer.Contained
import Drbd.Xfer.Defs
import Drbd.Xfer.Lemmas.Packets
import Drbd.Xfer.Lemmas.Runs
import Drbd.Xfer.Theorems
