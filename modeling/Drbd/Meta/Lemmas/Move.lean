import Drbd.Meta.Lemmas.Layout

/-!
# Moving the meta data of two devices that differ in their first byte

The format comes from a search that failed at the end of the device, so the byte offsets of the new
areas are still zero.
-/

namespace Drbd.Meta

open Lib

variable {dev dev' dev1 : Device} {cfg : Format} {old oldBm bm cur cur' : Int} {fuel : Nat}

theorem Agree.moveAl (h : Agree dev dev') (hcur : 0 < old + cfg.md.alOffset * 512)
    (hm : moveAl cfg old dev = some dev1) :
    ∃ dev1', Meta.moveAl cfg old dev' = some dev1' ∧ Agree dev1 dev1' := by
  unfold Meta.moveAl at hm ⊢
  obtain ⟨buf, hr, hw⟩ := Option.bind_eq_some_iff.mp hm
  obtain ⟨dev1', hw', hag, -⟩ := h.pwriteOrDie hw
  exact ⟨dev1', Option.bind_eq_some_iff.mpr ⟨buf, (h.preadOrDie hcur).trans hr, hw'⟩, hag⟩

theorem Agree.moveChunks (h : Agree dev dev') (hbm : 0 ≤ oldBm)
    (hm : moveChunks bm oldBm fuel dev cur = some (dev1, cur')) :
    ∃ dev1', Meta.moveChunks bm oldBm fuel dev' cur = some (dev1', cur') ∧ Agree dev1 dev1' := by
  induction fuel generalizing dev dev' cur with
  | zero =>
      cases hm
      exact ⟨dev', rfl, h⟩
  | succ n ih =>
      unfold Meta.moveChunks at hm ⊢
      split at hm
      · obtain ⟨buf, hr, hm⟩ := Option.bind_eq_some_iff.mp hm
        obtain ⟨dev2, hw, hm⟩ := Option.bind_eq_some_iff.mp hm
        obtain ⟨dev2', hw', hag, -⟩ := h.pwriteOrDie hw
        obtain ⟨dev1', hrest, hlast⟩ := ih hag hm
        refine ⟨dev1', ?_, hlast⟩
        rw [if_pos ‹_›, h.preadOrDie (by omega), hr]
        simp only [Option.bind_eq_bind, Option.bind_some, hw', hrest]
      · cases hm
        exact ⟨dev', if_neg ‹_›, h⟩

/-- The part left over is never empty. -/
theorem moveChunks_rest (hcur : oldBm - bufferSize < cur)
    (hm : moveChunks bm oldBm fuel dev cur = some (dev1, cur')) : oldBm - bufferSize < cur' := by
  induction fuel generalizing dev cur with
  | zero =>
      cases hm
      exact hcur
  | succ n ih =>
      unfold moveChunks at hm
      split at hm
      · obtain ⟨buf, -, hm⟩ := Option.bind_eq_some_iff.mp hm
        obtain ⟨dev2, -, hm⟩ := Option.bind_eq_some_iff.mp hm
        exact ih (by omega) hm
      · cases hm
        exact hcur

/-- With the bitmap behind the first byte, the last chunk makes the two devices the same. -/
theorem Agree.moveBitmap (h : Agree dev dev') (h0 : cfg.bmOffset = 0)
    (hlt : cfg.md.bmOffset < cfg.md.alOffset) (hbm : 0 < old + cfg.md.bmOffset * 512)
    (hm : moveBitmap cfg old dev = some dev1) : Meta.moveBitmap cfg old dev' = some dev1 := by
  unfold Meta.moveBitmap at hm ⊢
  obtain ⟨⟨dev2, cur⟩, hchunks, hm⟩ := Option.bind_eq_some_iff.mp hm
  obtain ⟨buf, hr, hw⟩ := Option.bind_eq_some_iff.mp hm
  obtain ⟨dev2', hchunks', hag⟩ := h.moveChunks (by omega) hchunks
  have hrest := moveChunks_rest (by omega) hchunks
  obtain ⟨dev1', hw', -, heq⟩ := hag.pwriteOrDie hw
  rw [heq (by rw [h0]; rfl) (by omega)]
  refine Option.bind_eq_some_iff.mpr ⟨_, hchunks', ?_⟩
  exact Option.bind_eq_some_iff.mpr ⟨buf, (hag.preadOrDie hbm).trans hr, hw'⟩

/-- With the bitmap at the first byte, the last chunk is written onto itself. -/
theorem Agree.moveBitmap_zero (h : Agree dev dev') (h0 : cfg.bmOffset = 0)
    (hbm : old + cfg.md.bmOffset * 512 = 0) (hm : Meta.moveBitmap cfg old dev = some dev1) :
    ∃ dev1', Meta.moveBitmap cfg old dev' = some dev1' ∧ Agree dev1 dev1' := by
  unfold Meta.moveBitmap at hm ⊢
  obtain ⟨⟨dev2, cur⟩, hchunks, hm⟩ := Option.bind_eq_some_iff.mp hm
  obtain ⟨buf, hr, hw⟩ := Option.bind_eq_some_iff.mp hm
  obtain ⟨dev2', hchunks', hag⟩ := h.moveChunks (by omega) hchunks
  obtain ⟨ht, rfl⟩ := preadOrDie_eq_some hr
  obtain ⟨-, rfl⟩ := pwriteOrDie_eq_some hw
  have hsigned : signed 64 cfg.bmOffset = 0 := by rw [h0]; rfl
  refine ⟨dev2', Option.bind_eq_some_iff.mpr ⟨_, hchunks', ?_⟩, ?_⟩
  · refine Option.bind_eq_some_iff.mpr ⟨_, if_pos (hag.transfers.mpr ht), ?_⟩
    rw [hbm] at ht
    unfold Meta.pwriteOrDie
    simp only [hsigned, hbm]
    rw [if_pos (hag.transfers.mpr ht)]
    exact congrArg some (Device.ext' rfl blit_self)
  · refine ⟨hag.size, fun x hx => ?_⟩
    simp only [hsigned, hbm]
    rw [blit_self]
    exact hag.byte x hx

/-! ## The whole move -/

/-- The super block used to begin here. -/
def lastKnownOffset (cfg : Format) : Int := signed 64 (mdGetByteOffset cfg.lkBd.bdSize)

/-- The parts of a move that went through. -/
theorem move_eq_some_iff {err : Int} {last : Device} :
    v08MoveInternalMdAfterResize cfg dev = some (err, last) ↔
      cfg.lkBd.bdSize ≤ cfg.bdSize ∧ IsValidMd cfg.md cfg.lkBd.bdSize ∧
      ∃ dev1 dev2, moveAl cfg (lastKnownOffset cfg) dev = some dev1 ∧
        moveBitmap cfg (lastKnownOffset cfg) dev1 = some dev2 ∧
        moveSuperBlock cfg (lastKnownOffset cfg) dev2 = some (err, last) := by
  unfold v08MoveInternalMdAfterResize
  by_cases hle : cfg.lkBd.bdSize ≤ cfg.bdSize
  · by_cases hv : IsValidMd cfg.md cfg.lkBd.bdSize
    · simp only [hle, hv, not_true_eq_false, if_false, true_and, Option.bind_eq_bind,
        Option.bind_eq_some_iff, lastKnownOffset]
      exact ⟨fun ⟨dev1, h1, dev2, h2, h3⟩ => ⟨dev1, dev2, h1, h2, h3⟩,
        fun ⟨dev1, dev2, h1, h2, h3⟩ => ⟨dev1, h1, dev2, h2, h3⟩⟩
    · simp [hle, hv]
  · simp [hle]

/-- The reads of a move that went through were inside the device and fit the buffer. -/
theorem moveAl_bounds (h : moveAl cfg old dev = some dev1) :
    0 ≤ old + cfg.md.alOffset * 512 ∧ cfg.md.alOffset ≤ 0 ∧ -65536 ≤ cfg.md.alOffset := by
  unfold moveAl at h
  obtain ⟨buf, hr, -⟩ := Option.bind_eq_some_iff.mp h
  obtain ⟨⟨h1, h2, h3, -⟩, -⟩ := preadOrDie_eq_some hr
  unfold bufferSize at h3
  omega

theorem moveBitmap_bounds (h : moveBitmap cfg old dev = some dev1) : 0 ≤ old + cfg.md.bmOffset * 512 := by
  unfold moveBitmap at h
  obtain ⟨⟨dev2, cur⟩, -, h⟩ := Option.bind_eq_some_iff.mp h
  obtain ⟨buf, hr, -⟩ := Option.bind_eq_some_iff.mp h
  exact (preadOrDie_eq_some hr).1.1

theorem Agree.move (h : Agree dev dev') (h0 : cfg.bmOffset = 0)
    (hlt : cfg.md.bmOffset < cfg.md.alOffset) {err : Int} {last : Device}
    (hm : v08MoveInternalMdAfterResize cfg dev = some (err, last)) :
    ∃ last', v08MoveInternalMdAfterResize cfg dev' = some (err, last') ∧ Agree last last' ∧
      (0 < lastKnownOffset cfg + cfg.md.bmOffset * 512 → last = last') := by
  obtain ⟨hle, hv, dev1, dev2, hal, hbm, hsb⟩ := move_eq_some_iff.mp hm
  have hge := moveBitmap_bounds hbm
  obtain ⟨dev1', hal', h1⟩ := h.moveAl (by omega) hal
  rcases Int.lt_or_eq_of_le hge with hpos | hzero
  · have hbm' := h1.moveBitmap h0 hlt hpos hbm
    exact ⟨last, move_eq_some_iff.mpr ⟨hle, hv, dev1', dev2, hal', hbm', hsb⟩, .refl last, fun _ => rfl⟩
  · obtain ⟨dev2', hbm', h2⟩ := h1.moveBitmap_zero h0 hzero.symm hbm
    obtain ⟨last', hsb', hl⟩ := h2.moveSuperBlock hsb
    refine ⟨last', move_eq_some_iff.mpr ⟨hle, hv, dev1', dev2', hal', hbm', hsb'⟩, hl, ?_⟩
    exact fun hpos => absurd hzero (Int.ne_of_lt hpos)

end Drbd.Meta
