import Drbd.Sizes.Resize

/-!
# Setting the size again

The size that is agreed on is not rounded, the capacity is. `drbd_md_sync()` takes the capacity for the size
agreed on if it has to write at all.
-/

namespace Drbd.Sizes

open Lib State Layout
open Device (changeSize bmResize setSize)

variable {d e : Device} {fl : DdsFlags} {env env' : Env} {forced : Bool} {p m u la size : Nat}

/-! ## The size as a function of the one last agreed on -/

def Device.maxCapacity (d : Device) : Nat := getMaxCapacity d.dev (mdSetSectorOffsets d.dev d.md)

/-- The peer's disk size, as an unconnected node is forced to see it. -/
def Device.peerSize (d : Device) (forced : Bool) : Nat :=
  if d.conn < .connected ∧ forced then d.maxCapacity else d.pSize

/-- The size that `drbd_new_dev_size()` computes with the offsets of now. -/
def Device.newSize (d : Device) (forced : Bool) : Nat :=
  newDevSize { d with md := mdSetSectorOffsets d.dev d.md }.node d.diskSize forced

theorem Device.newSize_eq (d : Device) (forced : Bool) : d.newSize forced =
    clipSize d.diskSize (baseSize (d.peerSize forced) d.maxCapacity d.md.laSizeSect) := by
  unfold Device.newSize newDevSize clipSize baseSize Device.peerSize
  dsimp only [Device.node]
  rw [mdSetSectorOffsets_la]
  rfl

/-- Once it is agreed on, the size stays. -/
theorem clipSize_baseSize_again (p m u la : Nat) :
    clipSize u (baseSize p m (clipSize u (baseSize p m la))) = clipSize u (baseSize p m la) := by
  unfold clipSize baseSize
  by_cases hboth : p ≠ 0 ∧ m ≠ 0
  · simp only [if_pos hboth]
  · simp only [if_neg hboth]
    grind

/-- The size with at most one disk, of size `q`. -/
def oneDisk (q la : Nat) : Nat := if la = 0 then q else if q = 0 then la else min q la

theorem baseSize_oneDisk (h : p = 0 ∨ m = 0) (la : Nat) : baseSize p m la = oneDisk (max p m) la := by
  unfold baseSize oneDisk
  rcases h with rfl | rfl <;> grind

theorem clipSize_eq_zero (u x : Nat) : clipSize u x = 0 ↔ x = 0 := by
  unfold clipSize
  split <;> omega

theorem oneDisk_eq_zero (q la : Nat) : oneDisk q la = 0 ↔ q = 0 ∧ la = 0 := by
  unfold oneDisk
  split <;> (try split) <;> omega

theorem clipSize_oneDisk_rounded {q r : Nat} (hsize : size = clipSize u (oneDisk q la)) (hle : r ≤ size)
    (hzero : r = 0 ↔ size < 2 ^ 15) (hsame : r = size ↔ size % 2 ^ 15 = 0) :
    clipSize u (oneDisk q r) = r ↔ size % 2 ^ 15 = 0 ∨ 2 ^ 15 ≤ size ∨ q = 0 := by
  rcases Nat.eq_zero_or_pos r with rfl | hpos
  · -- nothing is left, and a disk brings its size back
    have hsize0 : size = 0 ↔ q = 0 ∧ la = 0 := by rw [hsize, clipSize_eq_zero, oneDisk_eq_zero]
    rw [clipSize_eq_zero, oneDisk_eq_zero]
    omega
  · have hge : 2 ^ 15 ≤ size := Nat.not_lt.1 fun hlt => (Nat.ne_of_gt hpos) (hzero.2 hlt)
    refine ⟨fun _ => .inr (.inl hge), fun _ => ?_⟩
    unfold clipSize oneDisk at *
    rw [if_neg (Nat.ne_of_gt hpos)]
    split_ifs at hsize ⊢ <;> omega

/-- A size that is cut to whole 16 MB stays as it is when there was nothing to cut; or when one of the disks is
missing, and something is left. -/
theorem clipSize_baseSize_rounded (p m u la : Nat) (hsize : size = clipSize u (baseSize p m la)) :
    clipSize u (baseSize p m (roundCapacity size)) = roundCapacity size ↔
      size % 2 ^ 15 = 0 ∨ ((p = 0 ∨ m = 0) ∧ (2 ^ 15 ≤ size ∨ (p = 0 ∧ m = 0))) := by
  have hsame : roundCapacity size = size ↔ size % 2 ^ 15 = 0 := by
    unfold roundCapacity
    omega
  have hzero : roundCapacity size = 0 ↔ size < 2 ^ 15 := by
    unfold roundCapacity
    omega
  by_cases hone : p = 0 ∨ m = 0
  · rw [baseSize_oneDisk hone] at hsize ⊢
    rw [clipSize_oneDisk_rounded hsize (roundCapacity_le size) hzero hsame, Nat.max_eq_zero_iff]
    tauto
  · -- two disks: the size does not depend on the one agreed on
    have hboth : p ≠ 0 ∧ m ≠ 0 := not_or.1 hone
    unfold baseSize at hsize ⊢
    rw [if_pos hboth] at hsize ⊢
    rw [← hsize, eq_comm, hsame]
    tauto

/-! ## The first call -/

/-- What a call leaves of a device that now has the size `la` agreed on and the capacity `c`. -/
structure Device.After (d e : Device) (la c : Nat) (dirty : Bool) : Prop where
  dev : e.dev = d.dev
  md : e.md = { mdSetSectorOffsets d.dev d.md with laSizeSect := la }
  diskSize : e.diskSize = d.diskSize
  capacity : e.capacity = c
  bmCapacity : e.bitmap.bmDevCapacity = c
  pSize : e.pSize = d.pSize
  conn : e.conn = d.conn
  mdDirty : e.mdDirty = dirty

theorem Device.After.writeAll {c : Nat} {dirty : Bool} (h : d.After e la c dirty) (mdMoved : Bool) :
    d.After (e.writeAll mdMoved) la c dirty where
  dev := h.dev
  md := h.md
  diskSize := h.diskSize
  capacity := h.capacity
  bmCapacity := (drbdBmWrite_bmDevCapacity _ mdMoved).trans h.bmCapacity
  pSize := h.pSize
  conn := h.conn
  mdDirty := h.mdDirty

/-- With the offsets of now, a change of the size that succeeds. -/
theorem changeSize_after
    (h : ¬ (changeSize { d with md := mdSetSectorOffsets d.dev d.md } d.md size fl none env).1.IsError) :
    (d.capacity = size ∧ d.bitmap.bmDevCapacity = size ∧
      d.After (changeSize { d with md := mdSetSectorOffsets d.dev d.md } d.md size fl none env).2 d.md.laSizeSect size
        d.mdDirty) ∨
    (¬ (d.capacity = size ∧ d.bitmap.bmDevCapacity = size) ∧
      d.After (changeSize { d with md := mdSetSectorOffsets d.dev d.md } d.md size fl none env).2 size
        (roundCapacity size) d.mdDirty) := by
  unfold changeSize at h ⊢
  dsimp only at h ⊢
  by_cases hsame : d.capacity ≠ size ∨ d.bitmap.bmDevCapacity ≠ size
  · rw [if_pos hsame] at h ⊢
    refine .inr ⟨by tauto, ?_⟩
    cases hres : bmResize { d with md := mdSetSectorOffsets d.dev d.md } size fl env with
    | error err =>
        rw [hres] at h
        exact absurd trivial h
    | ok bitmap =>
        have hset : d.After (setSize { d with md := mdSetSectorOffsets d.dev d.md, bitmap := bitmap } size) size
            (roundCapacity size) d.mdDirty :=
          ⟨rfl, rfl, rfl, rfl, drbdBmResize_bmDevCapacity hres, rfl, rfl, rfl⟩
        dsimp only
        split
        · exact hset.writeAll _
        · exact hset
  · rw [if_neg hsame] at h ⊢
    have hboth : d.capacity = size ∧ d.bitmap.bmDevCapacity = size := by tauto
    refine .inl ⟨hboth.1, hboth.2, ?_⟩
    have hset : d.After { d with md := mdSetSectorOffsets d.dev d.md } d.md.laSizeSect size d.mdDirty := by
      refine ⟨rfl, ?_, rfl, hboth.1, hboth.2, rfl, rfl, rfl⟩
      rw [← mdSetSectorOffsets_la d.dev d.md]
    dsimp only
    split
    · exact hset.writeAll _
    · exact hset

/-- A call without error: either there was nothing to set, or the new size is set. -/
theorem after_of_success (h : ¬ (drbdDetermineDevSize d fl none env).1.IsError) :
    (d.capacity = d.newSize fl.forced ∧ d.bitmap.bmDevCapacity = d.newSize fl.forced ∧
      d.After (drbdDetermineDevSize d fl none env).2 d.md.laSizeSect (d.newSize fl.forced) d.mdDirty) ∨
    (¬ (d.capacity = d.newSize fl.forced ∧ d.bitmap.bmDevCapacity = d.newSize fl.forced) ∧
      d.After (drbdDetermineDevSize d fl none env).2 (d.newSize fl.forced) (roundCapacity (d.newSize fl.forced))
        d.mdDirty) := by
  have hsize : newDevSize (Device.node { d with md := newLayout d.dev d.md none }) d.diskSize fl.forced =
      d.newSize fl.forced := rfl
  unfold drbdDetermineDevSize at h ⊢
  dsimp only at h ⊢
  rw [hsize] at h ⊢
  by_cases hbuf : env.mdBuffer = false
  · rw [if_pos hbuf] at h
    exact absurd trivial h
  rw [if_neg hbuf] at h ⊢
  by_cases hspace : d.newSize fl.forced < d.md.laSizeSect ∧ d.diskSize > d.newSize fl.forced
  · rw [if_pos hspace] at h
    exact absurd trivial h
  have hshrink : ¬ (d.newSize fl.forced < d.md.laSizeSect ∧
      (none : Option ResizeParms).isSome = true ∧ d.diskSize = 0) :=
    fun hs => by cases hs.2.1
  rw [if_neg hspace, if_neg hshrink] at h ⊢
  exact changeSize_after h

/-! ## The second call -/

theorem mdSetSectorOffsets_again (dev : Devices) (md : DrbdMd) (la : Nat) :
    mdSetSectorOffsets dev { mdSetSectorOffsets dev md with laSizeSect := la } =
      { mdSetSectorOffsets dev md with laSizeSect := la } := by
  unfold mdSetSectorOffsets
  generalize hsect : align (align dev.backing (2 ^ 15) / 2 ^ 15) 8 = bmSect
  cases dev.idx <;> dsimp only

theorem getMaxCapacity_la (dev : Devices) (md : DrbdMd) (la : Nat) :
    getMaxCapacity dev { md with laSizeSect := la } = getMaxCapacity dev md := by
  unfold getMaxCapacity mdFirstSector
  rfl

theorem ofSize_unchanged (size la : Nat) : Dds.ofSize size la = .unchanged ↔ size = la := by
  unfold Dds.ofSize
  split
  · split <;> simp <;> omega
  · split <;> simp <;> omega

theorem changeSize_again (hbm : e.bitmap.bmDevCapacity = roundCapacity e.md.laSizeSect)
    (hcap : e.capacity = roundCapacity e.md.laSizeSect) :
    changeSize e e.md e.md.laSizeSect fl none env = (.unchanged, e) := by
  have hresize : bmResize e e.md.laSizeSect fl env = .ok e.bitmap := by
    unfold bmResize Bitmap.drbdBmResize
    exact if_pos hbm.symm
  have hset : setSize { e with bitmap := e.bitmap } e.md.laSizeSect = e := by
    unfold setSize
    simp only [← hcap]
  have hofSize : Dds.ofSize e.md.laSizeSect e.md.laSizeSect = .unchanged := (ofSize_unchanged _ _).2 rfl
  unfold changeSize
  dsimp only
  rw [hresize]
  dsimp only
  rw [hset, hofSize]
  simp

/-- Nothing that a resize sets has changed. -/
structure Device.Untouched (d e : Device) : Prop where
  capacity : e.capacity = d.capacity
  bitmap : e.bitmap = d.bitmap
  laSizeSect : e.md.laSizeSect = d.md.laSizeSect
  superBlock : e.superBlock = d.superBlock
  activityLog : e.activityLog = d.activityLog

/-- When the offsets are those of now already, a call changes nothing exactly if it finds the size agreed on. -/
theorem again_iff (hmd : mdSetSectorOffsets e.dev e.md = e.md)
    (hround : e.newSize fl.forced = e.md.laSizeSect → e.bitmap.bmDevCapacity = roundCapacity e.md.laSizeSect ∧
      e.capacity = roundCapacity e.md.laSizeSect) (hbuf : env.mdBuffer = true) :
    (drbdDetermineDevSize e fl none env).1 = .unchanged ∧ e.Untouched (drbdDetermineDevSize e fl none env).2 ↔
      e.newSize fl.forced = e.md.laSizeSect := by
  have hsame : { e with md := newLayout e.dev e.md none } = e := by
    change { e with md := mdSetSectorOffsets e.dev e.md } = e
    rw [hmd]
  have hsize : newDevSize (Device.node e) e.diskSize fl.forced = e.newSize fl.forced := by
    unfold Device.newSize
    rw [hmd]
  unfold drbdDetermineDevSize
  rw [if_neg (by rw [hbuf]; exact Bool.noConfusion)]
  dsimp only
  simp only [hsame, hsize]
  constructor
  · rintro ⟨h, -⟩
    split at h
    · cases h
    · split at h
      · cases h
      · refine (ofSize_unchanged _ _).1 ?_
        unfold changeSize at h
        dsimp only at h
        split at h
        · split at h
          · exact h
          · cases h
        · exact h
  · intro h
    rw [h, if_neg (fun hlt => Nat.lt_irrefl _ hlt.1), if_neg (fun hlt => Nat.lt_irrefl _ hlt.1),
      changeSize_again (hround h).1 (hround h).2]
    exact ⟨rfl, rfl, rfl, rfl, rfl, rfl⟩

theorem Device.After.mdSync {c : Nat} {dirty : Bool} (h : d.After e la c dirty) :
    d.After e.mdSync (if dirty then c else la) c false := by
  obtain ⟨hdev, hmd, hdisk, hcap, hbm, hp, hconn, hdirty⟩ := h
  unfold Device.mdSync
  cases dirty with
  | false =>
      rw [hdirty]
      exact ⟨hdev, hmd, hdisk, hcap, hbm, hp, hconn, hdirty⟩
  | true =>
      rw [hdirty]
      refine ⟨hdev, ?_, hdisk, hcap, hbm, hp, hconn, rfl⟩
      change { e.md with laSizeSect := e.capacity } = _
      rw [hmd, hcap]
      rfl

theorem Device.After.newSize {c : Nat} {dirty : Bool} (h : d.After e la c dirty) (forced : Bool) :
    e.newSize forced = clipSize d.diskSize (baseSize (d.peerSize forced) d.maxCapacity la) := by
  have hmax : e.maxCapacity = d.maxCapacity := by
    unfold Device.maxCapacity
    rw [h.dev, h.md, mdSetSectorOffsets_again, getMaxCapacity_la]
  have hpeer : e.peerSize forced = d.peerSize forced := by
    unfold Device.peerSize
    rw [hmax, h.conn, h.pSize]
  rw [newSize_eq, hpeer, hmax, h.diskSize, h.md]

/-- After a call that left the size `la` agreed on, a further one. -/
theorem Device.After.again_iff {c : Nat} {dirty : Bool} (h : d.After e la c dirty)
    (hround : clipSize d.diskSize (baseSize (d.peerSize fl.forced) d.maxCapacity la) = la → c = roundCapacity la)
    (hbuf : env.mdBuffer = true) :
    (drbdDetermineDevSize e fl none env).1 = .unchanged ∧ e.Untouched (drbdDetermineDevSize e fl none env).2 ↔
      clipSize d.diskSize (baseSize (d.peerSize fl.forced) d.maxCapacity la) = la := by
  have hla : e.md.laSizeSect = la := by rw [h.md]
  rw [Sizes.again_iff ?_ ?_ hbuf, h.newSize, hla]
  · rw [h.dev, h.md, mdSetSectorOffsets_again]
  · rw [h.newSize, hla, h.bmCapacity, h.capacity]
    exact fun heq => ⟨hround heq, hround heq⟩

/-! ## Both calls -/

/-- The device settles with one call: it has the size already, and it is the one agreed on (or becomes it when the
meta data is synced); or else there is no sync, the size is a multiple of 16 MB, or the one agreed on decides. -/
def Device.Settles (d : Device) (forced : Bool) : Prop :=
  if d.capacity = d.newSize forced ∧ d.bitmap.bmDevCapacity = d.newSize forced then
    d.mdDirty = true ∨ d.newSize forced = d.md.laSizeSect
  else
    d.mdDirty = false ∨ d.newSize forced % 2 ^ 15 = 0 ∨
      ((d.peerSize forced = 0 ∨ d.maxCapacity = 0) ∧
        (2 ^ 15 ≤ d.newSize forced ∨ (d.peerSize forced = 0 ∧ d.maxCapacity = 0)))

theorem mdBuffer_of_success {rs : Option ResizeParms} (h : ¬ (drbdDetermineDevSize d fl rs env).1.IsError) :
    env.mdBuffer = true := by
  by_contra hbuf
  refine h ?_
  unfold drbdDetermineDevSize
  rw [if_pos (Bool.eq_false_iff.2 hbuf)]
  trivial

theorem roundCapacity_of_aligned (h : size % 2 ^ 15 = 0) : roundCapacity size = size := by
  unfold roundCapacity
  omega

theorem roundCapacity_again (size : Nat) : roundCapacity (roundCapacity size) = roundCapacity size :=
  roundCapacity_of_aligned (roundCapacity_aligned size)

/-- A second call after one that succeeded. -/
theorem second_call_unchanged_iff (h : ¬ (drbdDetermineDevSize d fl none env).1.IsError)
    (henv : env'.mdBuffer = env.mdBuffer) :
    ((drbdDetermineDevSize (drbdDetermineDevSize d fl none env).2.mdSync fl none env').1 = .unchanged ∧
      (drbdDetermineDevSize d fl none env).2.mdSync.Untouched
        (drbdDetermineDevSize (drbdDetermineDevSize d fl none env).2.mdSync fl none env').2) ↔
      d.Settles fl.forced := by
  have hbuf : env'.mdBuffer = true := henv.trans (mdBuffer_of_success h)
  have hsize := d.newSize_eq fl.forced
  unfold Device.Settles
  rcases after_of_success h with ⟨hcap, hbm, hafter⟩ | ⟨hne, hafter⟩
  · -- there was nothing to set, so a different size agreed on was left as it was
    rw [if_pos ⟨hcap, hbm⟩]
    have haligned : roundCapacity (d.newSize fl.forced) = d.newSize fl.forced :=
      roundCapacity_of_aligned (hcap ▸ d.capacity_aligned)
    cases hdirty : d.mdDirty with
    | false =>
        rw [hdirty] at hafter
        rw [hafter.mdSync.again_iff ?_ hbuf, if_neg Bool.noConfusion, ← hsize]
        · simp
        · rw [if_neg Bool.noConfusion, ← hsize]
          exact fun heq => by rw [← heq, haligned]
    | true =>
        rw [hdirty] at hafter
        rw [hafter.mdSync.again_iff (fun _ => haligned.symm) hbuf, if_pos rfl, hsize, clipSize_baseSize_again]
        simp
  · rw [if_neg hne]
    cases hdirty : d.mdDirty with
    | false =>
        rw [hdirty] at hafter
        rw [hafter.mdSync.again_iff (fun _ => rfl) hbuf, if_neg Bool.noConfusion, hsize, clipSize_baseSize_again]
        simp
    | true =>
        rw [hdirty] at hafter
        rw [hafter.mdSync.again_iff (fun _ => (roundCapacity_again _).symm) hbuf, if_pos rfl,
          clipSize_baseSize_rounded _ _ _ _ hsize]
        simp

/-- A device of 16 MB + 4 kB on both nodes, connected, with something in the meta data that is not on disk yet. -/
def sixteenMbAndABlock : Device where
  dev := indexedDevices (2 ^ 15 + 8) (by decide)
  md := ⟨0, 2 ^ 15, 2 ^ 18, 8, 72, 1, 8, 8⟩
  flags := 0
  bitmap := ⟨⟨2 ^ 12, 0, fun _ => 0, fun _ => false, fun _ => false⟩, 2 ^ 15, fun _ => 0⟩
  diskSize := 0
  capacity := 2 ^ 15
  pSize := 2 ^ 15 + 8
  conn := .connected
  disk := .upToDate
  mdDirty := true
  superBlock := ⟨2 ^ 15, 0, 2 ^ 18, 8, 72, 1, 8⟩
  activityLog := fun _ => ActLog.initializedBlock
  capacity_aligned := by decide

/-- Each call grows it by a block. -/
theorem second_call_grows :
    (drbdDetermineDevSize sixteenMbAndABlock ⟨false, false⟩ none ⟨true, true, fun _ => 0⟩).1 = .grew ∧
      (drbdDetermineDevSize (drbdDetermineDevSize sixteenMbAndABlock ⟨false, false⟩ none
        ⟨true, true, fun _ => 0⟩).2.mdSync
        ⟨false, false⟩ none ⟨true, true, fun _ => 0⟩).1 = .grew := by
  decide

theorem second_call_unchanged_iff_of_block :
    ((drbdDetermineDevSize (drbdDetermineDevSize { sixteenMbAndABlock with mdDirty := false } ⟨false, false⟩ none
        ⟨true, true, fun _ => 0⟩).2.mdSync ⟨false, false⟩ none ⟨true, true, fun _ => 0⟩).1 = .unchanged ∧
      (drbdDetermineDevSize { sixteenMbAndABlock with mdDirty := false } ⟨false, false⟩ none
        ⟨true, true, fun _ => 0⟩).2.mdSync.Untouched
        (drbdDetermineDevSize (drbdDetermineDevSize { sixteenMbAndABlock with mdDirty := false } ⟨false, false⟩ none
          ⟨true, true, fun _ => 0⟩).2.mdSync ⟨false, false⟩ none ⟨true, true, fun _ => 0⟩).2) ↔
      Device.Settles { sixteenMbAndABlock with mdDirty := false } false :=
  second_call_unchanged_iff (by decide) rfl

end Drbd.Sizes
