import Drbd.Sizes.Resize

/-!
# A failed change of the size

The layout is computed anew before the checks, and only a change of the striping is undone. When the bitmap
cannot be brought to the size, `drbd_bm_capacity(device)>>1` is taken for the size from before: kB, where sectors
are meant.
-/

namespace Drbd.Sizes

open Lib State Layout

variable {d e : Device} {fl : DdsFlags} {rs : Option ResizeParms} {env : Env} {size : Nat}

/-- All that the size of a device consists of is as it was. -/
structure Device.Restored (d e : Device) : Prop where
  capacity : e.capacity = d.capacity
  md : e.md = d.md
  bitmap : e.bitmap = d.bitmap

/-- Computing the layout anew gives what is there, and with a striping to be put back the size of the activity
log is that of its stripes. -/
def Device.LayoutStands (d : Device) (rs : Option ResizeParms) : Prop :=
  mdSetSectorOffsets d.dev d.md = d.md ∧
    (rs.isSome = true → d.md.alSize4k = d.md.alStripes * d.md.alStripeSize4k % 2 ^ 32)

/-- The size is refused, before anything else is set. -/
def Device.Refuses (d : Device) (fl : DdsFlags) (rs : Option ResizeParms) : Prop :=
  let size := newDevSize (Device.node { d with md := newLayout d.dev d.md rs }) d.diskSize fl.forced
  size < d.md.laSizeSect ∧ (d.diskSize > size ∨ (rs.isSome = true ∧ d.diskSize = 0))

/-! ## The layout -/

theorem mdSetSectorOffsets_striping (dev : Devices) (md : DrbdMd) (rs : ResizeParms) :
    errOut dev md (newLayout dev md (some rs)) (some rs) =
      mdSetSectorOffsets dev { md with alSize4k := md.alStripes * md.alStripeSize4k % 2 ^ 32 } := by
  unfold newLayout errOut mdSetSectorOffsets
  generalize align (align dev.backing (2 ^ 15) / 2 ^ 15) 8 = bmSect
  cases dev.idx <;> dsimp only

theorem mdSetSectorOffsets_alSize4k (dev : Devices) (md : DrbdMd) :
    (mdSetSectorOffsets dev md).alSize4k = md.alSize4k := by
  unfold mdSetSectorOffsets
  dsimp only
  split <;> rfl

/-- Whether the layout is what it was after `err_out`. -/
theorem errOut_eq_iff (d : Device) (rs : Option ResizeParms) :
    errOut d.dev d.md (newLayout d.dev d.md rs) rs = d.md ↔ d.LayoutStands rs := by
  unfold Device.LayoutStands
  cases rs with
  | none => exact ⟨fun h => ⟨h, fun hs => Bool.noConfusion hs⟩, fun h => h.1⟩
  | some rs =>
      rw [mdSetSectorOffsets_striping]
      constructor
      · intro h
        have hal := congrArg DrbdMd.alSize4k h
        rw [mdSetSectorOffsets_alSize4k] at hal
        dsimp only at hal
        rw [hal] at h
        exact ⟨h, fun _ => hal.symm⟩
      · rintro ⟨h, hal⟩
        rw [← hal rfl]
        exact h

theorem errOut_setLa (dev : Devices) (prev md : DrbdMd) (la : Nat) (rs : Option ResizeParms) :
    errOut dev prev { md with laSizeSect := la } rs = { errOut dev prev md rs with laSizeSect := la } := by
  unfold errOut mdSetSectorOffsets
  cases rs with
  | none => rfl
  | some rs =>
      generalize align (align dev.backing (2 ^ 15) / 2 ^ 15) 8 = bmSect
      cases dev.idx <;> dsimp only

/-! ## The three ways out -/

theorem ofSize_not_error (size la : Nat) : ¬ (Dds.ofSize size la).IsError := by
  unfold Dds.ofSize
  split
  · split <;> exact id
  · split <;> exact id

/-- Once the size is not refused, only the bitmap can fail. -/
theorem changeSize_error {prev : DrbdMd} (h : (d.changeSize prev size fl rs env).1.IsError) :
    (d.changeSize prev size fl rs env).2.capacity = roundCapacity (d.bitmap.bmDevCapacity / 2) ∧
      (d.changeSize prev size fl rs env).2.md =
        errOut d.dev prev { d.md with laSizeSect := d.bitmap.bmDevCapacity / 2 } rs ∧
      (d.changeSize prev size fl rs env).2.bitmap = d.bitmap := by
  unfold Device.changeSize at h ⊢
  dsimp only at h ⊢
  by_cases hsame : d.capacity ≠ size ∨ d.bitmap.bmDevCapacity ≠ size
  · rw [if_pos hsame] at h ⊢
    cases hres : d.bmResize size fl env with
    | ok bitmap =>
        rw [hres] at h
        exact absurd h (ofSize_not_error _ _)
    | error err => exact ⟨rfl, rfl, rfl⟩
  · rw [if_neg hsame] at h
    exact absurd h (ofSize_not_error _ _)

/-- What a failed call leaves. -/
theorem error_cases (h : (drbdDetermineDevSize d fl rs env).1.IsError) :
    (env.mdBuffer = false ∧ (drbdDetermineDevSize d fl rs env).2 = d) ∨
    (env.mdBuffer = true ∧ d.Refuses fl rs ∧ (drbdDetermineDevSize d fl rs env).2 =
      { d with md := errOut d.dev d.md (newLayout d.dev d.md rs) rs }) ∨
    (env.mdBuffer = true ∧ ¬ d.Refuses fl rs ∧
      (drbdDetermineDevSize d fl rs env).2.capacity = roundCapacity (d.bitmap.bmDevCapacity / 2) ∧
      (drbdDetermineDevSize d fl rs env).2.md = { errOut d.dev d.md (newLayout d.dev d.md rs) rs with
        laSizeSect := d.bitmap.bmDevCapacity / 2 } ∧
      (drbdDetermineDevSize d fl rs env).2.bitmap = d.bitmap) := by
  unfold Device.Refuses
  unfold drbdDetermineDevSize at h ⊢
  dsimp only at h ⊢
  generalize newDevSize (Device.node { d with md := newLayout d.dev d.md rs }) d.diskSize fl.forced = size at h ⊢
  by_cases hbuf : env.mdBuffer = false
  · rw [if_pos hbuf]
    exact .inl ⟨hbuf, rfl⟩
  rw [if_neg hbuf] at h ⊢
  have hbuf : env.mdBuffer = true := Bool.eq_true_of_not_eq_false hbuf
  refine .inr ?_
  by_cases hspace : size < d.md.laSizeSect ∧ d.diskSize > size
  · rw [if_pos hspace]
    exact .inl ⟨hbuf, ⟨hspace.1, .inl hspace.2⟩, rfl⟩
  rw [if_neg hspace] at h ⊢
  by_cases hshrink : size < d.md.laSizeSect ∧ rs.isSome = true ∧ d.diskSize = 0
  · rw [if_pos hshrink]
    exact .inl ⟨hbuf, ⟨hshrink.1, .inr hshrink.2⟩, rfl⟩
  rw [if_neg hshrink] at h ⊢
  obtain ⟨hcap, hmd, hbm⟩ := changeSize_error h
  refine .inr ⟨hbuf, ?_, hcap, hmd.trans (errOut_setLa _ _ _ _ _), hbm⟩
  rintro ⟨hlt, hdisk | hdisk⟩
  · exact hspace ⟨hlt, hdisk⟩
  · exact hshrink ⟨hlt, hdisk⟩

/-- A failed change of the size changes nothing exactly if it did not get the meta-data buffer; or else the layout
stands, and the size is refused, or half of the bitmap's capacity is both the size agreed on and, cut to 16 MB, the
capacity. -/
theorem failed_resize_restores_iff (h : (drbdDetermineDevSize d fl rs env).1.IsError) :
    d.Restored (drbdDetermineDevSize d fl rs env).2 ↔
      env.mdBuffer = false ∨ (d.LayoutStands rs ∧ (d.Refuses fl rs ∨
        (d.md.laSizeSect = d.bitmap.bmDevCapacity / 2 ∧ d.capacity = roundCapacity (d.bitmap.bmDevCapacity / 2)))) := by
  rcases error_cases h with ⟨hbuf, heq⟩ | ⟨hbuf, hrefuse, heq⟩ | ⟨hbuf, hrefuse, hcap, hmd, hbm⟩
  · rw [heq]
    exact ⟨fun _ => .inl hbuf, fun _ => ⟨rfl, rfl, rfl⟩⟩
  · rw [heq, ← errOut_eq_iff]
    constructor
    · intro hr
      exact .inr ⟨hr.md, .inl hrefuse⟩
    · rintro (hno | ⟨hlayout, -⟩)
      · exact absurd (hno.symm.trans hbuf) Bool.noConfusion
      · exact ⟨rfl, hlayout, rfl⟩
  · rw [← errOut_eq_iff]
    have hla : (errOut d.dev d.md (newLayout d.dev d.md rs) rs).laSizeSect = d.md.laSizeSect := by
      cases rs <;> exact (mdSetSectorOffsets_la _ _).trans (by first | rfl | exact mdSetSectorOffsets_la _ _)
    constructor
    · rintro ⟨hc, hm, -⟩
      rw [hmd] at hm
      have hla' : d.bitmap.bmDevCapacity / 2 = d.md.laSizeSect := congrArg DrbdMd.laSizeSect hm
      refine .inr ⟨?_, .inr ⟨hla'.symm, hc.symm.trans hcap⟩⟩
      rw [hla', ← hla] at hm
      exact hm
    · rintro (hno | ⟨hlayout, hno | ⟨hla', hc⟩⟩)
      · exact absurd (hno.symm.trans hbuf) Bool.noConfusion
      · exact absurd hno hrefuse
      · refine ⟨hcap.trans hc.symm, ?_, hbm⟩
        rw [hmd, hlayout, ← hla']

/-- A device of 128 MB, whose disk and whose peer have grown to 256 MB. -/
def grown : Device where
  dev := indexedDevices (2 ^ 19) (by decide)
  md := ⟨0, 2 ^ 18, 2 ^ 18, 8, 72, 1, 8, 8⟩
  flags := 0
  bitmap := ⟨⟨2 ^ 15, 0, fun _ => 0, fun _ => false, fun _ => false⟩, 2 ^ 18, fun _ => 0⟩
  diskSize := 0
  capacity := 2 ^ 18
  pSize := 2 ^ 19
  conn := .connected
  disk := .upToDate
  mdDirty := false
  superBlock := ⟨2 ^ 18, 0, 2 ^ 18, 8, 72, 1, 8⟩
  activityLog := fun _ => ActLog.initializedBlock
  capacity_aligned := by decide

/-- No memory for the second page of the bitmap: the device is cut in half. -/
theorem failed_resize_halves :
    (drbdDetermineDevSize grown ⟨false, false⟩ none ⟨true, false, fun _ => 0⟩).1 = .error ∧
      grown.capacity = 2 ^ 18 ∧
      (drbdDetermineDevSize grown ⟨false, false⟩ none ⟨true, false, fun _ => 0⟩).2.capacity = 2 ^ 17 := by
  decide

theorem failed_resize_restores_iff_of_grown :
    grown.Restored (drbdDetermineDevSize grown ⟨false, false⟩ none ⟨true, false, fun _ => 0⟩).2 ↔
      true = false ∨ (grown.LayoutStands none ∧ (grown.Refuses ⟨false, false⟩ none ∨
        (grown.md.laSizeSect = grown.bitmap.bmDevCapacity / 2 ∧
          grown.capacity = roundCapacity (grown.bitmap.bmDevCapacity / 2)))) :=
  failed_resize_restores_iff (by decide)

end Drbd.Sizes
