import Drbd.Noblock.Lemmas.Invariant

/-!
# The snapshot command of drbd_snapshot.c

Under protocol S the command hands all blocks that are out of sync over to a snapshot of the lower
device: it flushes the bitmap, has the snapshot taken with the bitmap on it, and clears the bits of the
pages that have not changed since. Writes, acks and other writers of bitmap pages run beside it.
-/

namespace Drbd.Snapshot

open Bitmap Noblock

/-- A page on its way to the disk: from its own memory, or from a copy taken first. -/
structure PageIo where
  copy : Option (Nat → Bool)
  landed : Nat

/-- Where `sdrbd_sysctl_write` stands. -/
inductive Phase
  | idle
  | flushing (page : Nat)
  | flushed
  | snapshotted
  | flagged
  | cleared
  | counted (c : Nat)
  | returned
deriving DecidableEq, Repr

/-- `onDisk` and `snapBit` are the bitmap on the lower device and on the snapshot, bit by bit;
`snapWritten` says which writes of a block the snapshot contains. -/
structure State where
  dev : Noblock.State
  onDisk : Nat → Bool
  io : Nat → Option PageIo
  phase : Phase
  snapBit : Nat → Bool
  snapWritten : Nat → Nat

inductive Event
  | noblock (e : Noblock.Event)
  | pageIo (page : Nat)
  | dma (page upTo : Nat)
  | pageIoDone (page : Nat)
  | command

/-! ## Pages -/

/-- `bm_page_io_async` up to the submission. -/
def startIo (s : State) (page : Nat) (copying : Bool) : State :=
  { s with
    dev := { s.dev with bitmap := s.dev.bitmap.setPageUnchanged page }
    io := Function.update s.io page
      (some ⟨if copying then some s.dev.bitmap.bit else none, 0⟩) }

/-- The writers beside the command, `drbd_bm_write_hinted` and `drbd_bm_write_lazy`, copy the page. -/
def pageIo (s : State) (page : Nat) : Option State :=
  if page < s.dev.bitmap.bmNumberOfPages ∧ s.dev.bitmap.testPageUnchanged page = false ∧
      (s.io page).isNone then
    some (startIo s page true)
  else none

/-- The next bits of the page reach the disk, as they are in its source just then. -/
def dma (s : State) (page upTo : Nat) : Option State :=
  match s.io page with
  | none => none
  | some x =>
      if upTo ≤ bitsPerPage then
        some { s with
          onDisk := fun i =>
            if page * bitsPerPage + x.landed ≤ i ∧ i < page * bitsPerPage + upTo then
              (x.copy.getD s.dev.bitmap.bit) i
            else s.onDisk i
          io := Function.update s.io page (some { x with landed := max x.landed upTo }) }
      else none

def pageIoDone (s : State) (page : Nat) : Option State :=
  match s.io page with
  | none => none
  | some x => if x.landed = bitsPerPage then some { s with io := Function.update s.io page none } else none

/-! ## The command -/

/-- One step of `sdrbd_sysctl_write` on "snapshot". -/
def command (s : State) : Option State :=
  match s.phase with
  | .idle => some { s with phase := .flushing 0 }
  | .flushing page =>
      -- `drbd_bm_write`: the changed pages, each when its lock is free; then all of them are awaited
      if page < s.dev.bitmap.bmNumberOfPages then
        if s.dev.bitmap.testPageUnchanged page then some { s with phase := .flushing (page + 1) }
        else if (s.io page).isSome then none
        else some { startIo s page false with phase := .flushing (page + 1) }
      else if ∀ p < s.dev.bitmap.bmNumberOfPages, ∀ x ∈ s.io p, x.copy.isSome then
        some { s with phase := .flushed }
      else none
  | .flushed =>
      -- the helper: data and bitmap of one moment
      some { s with phase := .snapshotted, snapBit := s.onDisk, snapWritten := s.dev.written }
  | .snapshotted => some { s with phase := .flagged }
  | .flagged =>
      some { s with phase := .cleared, dev := { s.dev with bitmap := bmMemsetUnchanged s.dev.bitmap } }
  | .cleared =>
      (drbdBmCountBits s.dev.bitmap 0 s.dev.bitmap.bmBits).map fun c => { s with phase := .counted c }
  | .counted c =>
      some { s with phase := .returned, dev := { s.dev with bitmap := { s.dev.bitmap with bmSet := c } } }
  | .returned => none

def step (g : Geometry) (s : State) : Event → Option State
  | .noblock e => (Noblock.step g s.dev e).map fun dev => { s with dev := dev }
  | .pageIo page => pageIo s page
  | .dma page upTo => dma s page upTo
  | .pageIoDone page => pageIoDone s page
  | .command => command s

/-! ## What is to hold -/

/-- Of the blocks the peer does not have, those that differ from the snapshot are marked in the main
bitmap, and the others in one of the two. -/
def HandedOver (s : State) : Prop :=
  ∀ b < s.dev.bitmap.bmBits, ¬ Pending s.dev b → s.dev.acked b < s.dev.written b →
    (s.dev.written b ≠ s.snapWritten b → s.dev.bitmap.bit b = true) ∧
      (s.dev.bitmap.bit b = true ∨ s.snapBit b = true)

/-- No page is on its way when the snapshot is taken; and a page with a block written since then still
has its flag up when the flags decide. -/
def KeepsCommand (s : State) : Phase → Prop
  | .flushed => ∀ p < s.dev.bitmap.bmNumberOfPages, (s.io p).isNone = true
  | .flagged => ∀ b < s.dev.bitmap.bmBits, ¬ Pending s.dev b → s.dev.written b ≠ s.snapWritten b →
      s.dev.bitmap.testPageUnchanged (b / bitsPerPage) = false
  | _ => True

/-- Nor is a page written out from the snapshot until the flags have decided. -/
def Keeps (s : State) : Event → Prop
  | .noblock e => Noblock.Keeps s.dev e
  | .pageIo _ => s.phase ≠ .snapshotted ∧ s.phase ≠ .flagged
  | .command => KeepsCommand s s.phase
  | .dma _ _ | .pageIoDone _ => True

instance (d : Noblock.State) (b : Nat) : Decidable (Pending d b) :=
  inferInstanceAs (Decidable (∃ w ∈ d.endios, _))

instance (s : State) : DecidablePred (KeepsCommand s)
  | .flushed => inferInstanceAs (Decidable (∀ p < s.dev.bitmap.bmNumberOfPages, _))
  | .flagged => inferInstanceAs (Decidable (∀ b < s.dev.bitmap.bmBits, _))
  | .idle | .flushing _ | .snapshotted | .cleared | .counted _ | .returned =>
      inferInstanceAs (Decidable True)

instance (s : State) : DecidablePred (Keeps s)
  | .noblock e => inferInstanceAs (Decidable (Noblock.Keeps s.dev e))
  | .pageIo _ => inferInstanceAs (Decidable (_ ∧ _))
  | .command => inferInstanceAs (Decidable (KeepsCommand s s.phase))
  | .dma _ _ | .pageIoDone _ => inferInstanceAs (Decidable True)

end Drbd.Snapshot
