import Drbd.Noblock.Theorems
import Drbd.Snapshot.Lemmas.Invariant

/-!
# The hand-over to the snapshot

The flag of a page says whether a bit has flipped since the page was last written out. The command takes
it for "written since the snapshot". That goes wrong when a block that is already marked is written
again, and when somebody else writes the page out in between.
-/

namespace Drbd.Snapshot

open Bitmap Noblock Lib

variable {g : Geometry} {s s' : State} {es : List Event}

/-- A freshly attached device, its bitmap just read from disk. -/
structure Init (g : Geometry) (s : State) : Prop where
  dev : Noblock.Init g s.dev
  phase : s.phase = .idle
  io : ∀ p, s.io p = none
  onDisk : ∀ i, s.onDisk i = s.dev.bitmap.bit i

theorem Init.inv (h : Init g s) : Inv g s := by
  unfold Inv
  rw [h.phase]
  refine ⟨h.dev.inv _, fun i _ _ => ⟨fun _ => h.onDisk i, fun x hx => ?_⟩⟩
  rw [h.io] at hx
  cases hx

/-- When no page goes out between the snapshot and the clearing, and the blocks written in between are
in pages with their flag up, the command loses no write. -/
theorem handed_over (h0 : Init g s) (hc : Meets (step g) Keeps s es)
    (h : run (step g) s es = some s') (hret : s'.phase = .returned) : HandedOver s' := by
  have hinv : Inv g s' := run_invariant (fun hi hk hs => hi.step hk hs) h0.inv hc h
  unfold Inv at hinv
  rw [hret] at hinv
  intro b hb hpend hlt
  cases hbit : s'.dev.bitmap.bit b with
  | true => exact ⟨fun _ => rfl, .inl rfl⟩
  | false =>
      rcases hinv.safe b hb hpend hbit with hle | ⟨hsame, hsnap⟩
      · omega
      · exact ⟨fun hne => absurd hsame hne, .inr hsnap⟩

/-! ## One marked block -/

def attachedInSync : State where
  dev := inSync
  onDisk _ := false
  io _ := none
  phase := .idle
  snapBit _ := false
  snapWritten _ := 0

theorem attachedInSync_init : Init fourBlocks attachedInSync :=
  ⟨inSync_init, rfl, fun _ => rfl, fun i => by simp [attachedInSync, inSync, DrbdBitmap.bit]⟩

/-- The flush of the one page, then the snapshot. -/
def takeSnapshot : List Event :=
  [.command, .command, .dma 0 bitsPerPage, .pageIoDone 0, .command, .command]

/-- The flag, the clearing, the count. -/
def finish : List Event := List.replicate 4 .command

/-- Block 0 is marked before the snapshot: its mark moves there. -/
theorem handed_over_marked :
    Meets (step fourBlocks) Keeps attachedInSync ((write 0).map .noblock ++ takeSnapshot ++ finish) ∧
      ∃ s', run (step fourBlocks) attachedInSync ((write 0).map .noblock ++ takeSnapshot ++ finish) = some s' ∧
        s'.phase = .returned ∧ s'.dev.acked 0 < s'.dev.written 0 ∧ s'.snapBit 0 = true ∧ HandedOver s' := by
  have hc : Meets (step fourBlocks) Keeps attachedInSync
      ((write 0).map .noblock ++ takeSnapshot ++ finish) := by decide
  have hrun : (run (step fourBlocks) attachedInSync ((write 0).map .noblock ++ takeSnapshot ++ finish)).map
      (fun s => (s.phase, s.dev.acked 0, s.dev.written 0, s.snapBit 0)) = some (.returned, 0, 1, true) := by
    decide
  obtain ⟨s', hs', hobs⟩ := Option.map_eq_some_iff.1 hrun
  simp only [Prod.mk.injEq] at hobs
  obtain ⟨hphase, hacked, hwritten, hsnap⟩ := hobs
  exact ⟨hc, s', hs', hphase, by omega, hsnap, handed_over attachedInSync_init hc hs' hphase⟩

/-- Block 0 is written again after the snapshot. Its bit is set already, so no flag goes up, and the bit
is dropped: the second write is marked nowhere. -/
theorem rewrite_loses_mark :
    ¬ ∀ (g : Geometry) (s s' : State) (es : List Event),
      Init g s → run (step g) s es = some s' → s'.phase = .returned → HandedOver s' := by
  intro hall
  have hrun : (run (step fourBlocks) attachedInSync
      ((write 0).map .noblock ++ takeSnapshot ++ (write 0).map .noblock ++ finish)).map
      (fun s => ((s.phase, s.dev.endios, s.dev.bitmap.bmBits),
        (s.dev.acked 0, s.dev.written 0, s.snapWritten 0, s.dev.bitmap.bit 0)))
      = some ((.returned, [], 4), (0, 2, 1, false)) := by
    decide
  obtain ⟨s', hs', hobs⟩ := Option.map_eq_some_iff.1 hrun
  simp only [Prod.mk.injEq] at hobs
  obtain ⟨⟨hphase, hend, hbits⟩, hacked, hwritten, hsnap, hbit⟩ := hobs
  have hover := hall _ _ _ _ attachedInSync_init hs' hphase 0 (by omega) (by simp [Pending, hend]) (by omega)
  have hset := hover.1 (by omega)
  rw [hbit] at hset
  cases hset

end Drbd.Snapshot
