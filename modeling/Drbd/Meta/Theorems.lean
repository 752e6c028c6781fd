import Drbd.Meta.Lemmas.Move
import Drbd.Meta.Lemmas.Open
import Mathlib.Logic.Function.Basic

/-!
# The meta data after an offline grow
-/

namespace Drbd.Meta

open Lib

variable {lk : LkBd} {force : Bool} {dev dev' : Device} {cfg : Format}

/-- The device after the move holds the meta data at its new place and is otherwise as before, except
for the old super block. -/
structure Moved (md : MdCpu) (old : Nat) (dev last : Device) : Prop where
  valid : IsValidMd (superBlockAt last (mdGetByteOffset dev.size)) dev.size
  al : ∀ i : Nat, (i : Int) < alSizeSect md * 512 →
    last.byte (alStart md dev.size + i).toNat = dev.byte (alStart md old + i).toNat
  bitmap : ∀ i : Nat, i < bmSizeSect old * 512 →
    last.byte (bmStart md dev.size + i).toNat = dev.byte (bmStart md old + i).toNat
  frame : ∀ x : Nat, ¬ (bmStart md dev.size ≤ x ∧ x < mdGetByteOffset dev.size + 4096) →
    ¬ (mdGetByteOffset old ≤ x ∧ x < mdGetByteOffset old + 4096) → last.byte x = dev.byte x

/-- When the super block is found where the device used to end, it is moved. -/
def MovesMd (lk : LkBd) (force : Bool) (dev : Device) : Prop :=
  ∀ cfg, v08MdOpen (some lk) force dev .zero = some (.validMdFoundAtLastKnownLocation, cfg) →
    ∃ err last, v08MoveInternalMdAfterResize cfg dev = some (err, last) ∧ Moved cfg.md lk.bdSize dev last

/-- The device with another first byte. -/
def withFirstByte (dev : Device) (b : UInt8) : Device :=
  { dev with byte := Function.update dev.byte 0 b }

theorem agree_withFirstByte (b : UInt8) : Agree dev (withFirstByte dev b) :=
  ⟨rfl, fun x hx => (Function.update_of_ne (by omega) b dev.byte).symm⟩

theorem exists_other (a : UInt8) : ∃ b, b ≠ a := by
  by_cases h : a = 0
  · exact ⟨1, by rw [h]; decide⟩
  · exact ⟨0, Ne.symm h⟩

/-- Where the old meta data lies, once it could be moved at all. -/
theorem AtLastKnown.layout (hk : AtLastKnown lk dev cfg) (hgrow : lk.bdSize < dev.size) {err : Int}
    {last : Device}
    (hm : v08MoveInternalMdAfterResize cfg dev = some (err, last)) :
    4096 ≤ lk.bdSize ∧ lastKnownOffset cfg = mdGetByteOffset lk.bdSize ∧
      0 ≤ alSizeSect cfg.md ∧ alSizeSect cfg.md ≤ 65536 ∧ 0 ≤ bmStart cfg.md lk.bdSize ∧
      cfg.md.alOffset = -alSizeSect cfg.md ∧
      cfg.md.bmOffset = -(alSizeSect cfg.md + bmSizeSect lk.bdSize) := by
  have hlt := dev.size_lt
  have hin := hk.inside
  have hlarge : 4096 ≤ lk.bdSize := by
    by_contra hsmall
    have := mdGetByteOffset_of_lt (Nat.lt_of_not_le hsmall)
    omega
  have hlast : lastKnownOffset cfg = mdGetByteOffset lk.bdSize := by
    unfold lastKnownOffset
    rw [hk.lkBd]
    exact signed_eq (by omega) (by omega)
  obtain ⟨-, -, dev1, dev2, hal, hbm, -⟩ := move_eq_some_iff.mp hm
  obtain ⟨-, hhi, hlo⟩ := moveAl_bounds hal
  have hge := moveBitmap_bounds hbm
  rw [hlast] at hge
  obtain ⟨hoff, hbmoff⟩ := hk.valid.offsets (by omega) hlo hhi
  refine ⟨hlarge, hlast, by omega, by omega, ?_, hoff, hbmoff⟩
  unfold bmStart alStart
  omega

theorem IsValidMd.congr {md : MdCpu} {size size' : Nat} (h : IsValidMd md size)
    (hbm : bmSizeSect size = bmSizeSect size') : IsValidMd md size' := by
  unfold IsValidMd flexMdSizeSect at *
  rwa [← hbm]

/-- Whatever the sizes and the super block, there is a device on which the move goes wrong: the areas
are copied to the beginning of the device, where the first byte is lost or the new bitmap never
gets it. -/
theorem move_goes_wrong
    (hopen : v08MdOpen (some lk) force dev .zero = some (.validMdFoundAtLastKnownLocation, cfg))
    (hgrow : lk.bdSize < dev.size) :
    ¬ ∀ dev' : Device, dev'.size = dev.size →
      (∀ i < 4096, dev'.byte (mdGetByteOffset lk.bdSize + i) = dev.byte (mdGetByteOffset lk.bdSize + i)) →
      MovesMd lk force dev' := by
  intro hall
  have hk := AtLastKnown.of_open hopen
  obtain ⟨err, last, hm, hmoved⟩ := hall dev rfl (fun _ _ => rfl) cfg hopen
  obtain ⟨hold, hlk, hlo, hhi, hbm0, hal, hbm⟩ := hk.layout hgrow hm
  have hbmpos : 0 < bmSizeSect lk.bdSize := by
    have hlt := dev.size_lt
    rw [bmSizeSect_eq (by omega)]
    omega
  have hoff : 0 < mdGetByteOffset lk.bdSize := by
    unfold bmStart alStart at hbm0
    omega
  have hnew : 0 < bmStart cfg.md dev.size := by
    refine bmStart_pos hgrow dev.size_lt hold hlo hhi hbm0 fun _ => ?_
    by_contra hsame
    obtain ⟨h1, h2⟩ : mdGetByteOffset lk.bdSize = mdGetByteOffset dev.size ∧
        bmSizeSect lk.bdSize = bmSizeSect dev.size := by omega
    refine hk.invalid ?_
    rw [← h1, ← hk.md]
    exact hk.valid.congr h2
  -- the same device with another first byte
  obtain ⟨b, hb⟩ := exists_other (dev.byte 0)
  have hagree : Agree dev (withFirstByte dev b) := agree_withFirstByte b
  have hopen' := (hagree.v08MdOpen hk.large hoff).trans hopen
  obtain ⟨err', last', hm', hmoved'⟩ := hall (withFirstByte dev b) rfl
    (fun i _ => (hagree.byte _ (by omega)).symm) cfg hopen'
  obtain ⟨last'', hm'', hlast, heq⟩ := hagree.move hk.bmOffset (by omega) hm
  cases hm'.symm.trans hm''
  have hb0 : (withFirstByte dev b).byte 0 = b := by simp only [withFirstByte, Function.update_self]
  rcases Int.lt_or_eq_of_le hbm0 with hpos | hzero
  · -- the last chunk has overwritten the first byte in the same way
    have h1 := hmoved.frame 0 (by omega) (by omega)
    have h2 := hmoved'.frame 0 (fun h => Int.not_le.mpr hnew h.1) (by omega)
    have hsame : last = last' := heq (by
      rw [hlk]
      unfold bmStart alStart at hpos
      omega)
    rw [hb0, ← hsame, h1] at h2
    exact hb h2.symm
  · -- the old bitmap begins with the first byte, and the new one lies behind it
    have h1 := hmoved.bitmap 0 (by omega)
    have h2 := hmoved'.bitmap 0 (by omega)
    have hsame := hlast.byte (bmStart cfg.md dev.size).toNat (Int.pos_iff_toNat_pos.mp hnew)
    rw [← hzero] at h1 h2
    simp only [Int.natCast_zero, Int.add_zero, Int.toNat_zero] at h1 h2
    have h2' : last'.byte (bmStart cfg.md dev.size).toNat = b := h2.trans hb0
    rw [← hsame, h1] at h2'
    exact hb h2'.symm

/-! ## A device grown from 1 MB to 2 MB -/

def smallMd : MdCpu := { MdCpu.zero with
  magic := mdMagic08
  mdSizeSect := 80
  alOffset := -64
  alNrExtents := 1237
  bmOffset := -72
  bmBytesPerBit := 4096
  alStripes := 1
  alStripeSize4k := 8 }

def smallLk : LkBd := ⟨2 ^ 20, 0⟩

/-- The data begins with a byte that is not zero. -/
def grown : Device where
  size := 2 ^ 21
  byte := blit (fun x => if x = 0 then 0x55 else 0) (mdGetByteOffset (2 ^ 20)) 4096 (mdCpuToDisk08 smallMd)
  size_lt := by decide

theorem grown_found : (v08MdOpen (some smallLk) false grown .zero).map Prod.fst =
    some .validMdFoundAtLastKnownLocation := by decide

theorem grown_open : ∃ cfg, v08MdOpen (some smallLk) false grown .zero =
    some (.validMdFoundAtLastKnownLocation, cfg) := by
  obtain ⟨⟨_, cfg⟩, hopen, rfl⟩ := Option.map_eq_some_iff.mp grown_found
  exact ⟨cfg, hopen⟩

theorem grown_moved_byte : ((v08MdOpen (some smallLk) false grown .zero).bind fun r =>
    v08MoveInternalMdAfterResize r.2 grown).map (fun r => r.2.byte 0) = some 0 := by decide

theorem move_goes_wrong_grown :
    (v08MdOpen (some smallLk) false grown .zero).map Prod.fst = some .validMdFoundAtLastKnownLocation ∧
      smallLk.bdSize < grown.size ∧
      ¬ ∀ dev' : Device, dev'.size = grown.size →
        (∀ i < 4096, dev'.byte (mdGetByteOffset smallLk.bdSize + i) =
          grown.byte (mdGetByteOffset smallLk.bdSize + i)) → MovesMd smallLk false dev' := by
  refine ⟨grown_found, by decide, fun h => ?_⟩
  obtain ⟨cfg, hopen⟩ := grown_open
  exact move_goes_wrong hopen (by decide) h

/-- The first byte of the data is overwritten with the first byte of the bitmap. -/
theorem grown_loses_data : ¬ MovesMd smallLk false grown := by
  intro h
  obtain ⟨cfg, hopen⟩ := grown_open
  obtain ⟨err, last, hm, hmoved⟩ := h cfg hopen
  have hbyte := grown_moved_byte
  rw [hopen, Option.bind_some, hm, Option.map_some, Option.some.injEq] at hbyte
  have hbm : 0 < bmStart cfg.md grown.size := by
    rw [(AtLastKnown.of_open hopen).md]
    decide
  have hframe := hmoved.frame 0 (fun h => Int.not_le.mpr hbm h.1)
    (fun h => absurd h.1 (by decide))
  rw [hbyte] at hframe
  exact absurd hframe (by decide)

end Drbd.Meta
