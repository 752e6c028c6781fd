import Drbd.Meta.Lemmas.Parse
import Drbd.Meta.Lemmas.Print

/-!
# What the tool opens
-/

namespace Drbd.Meta

open Lib

variable {dev : Device} {cfg : Format} {lk : Option LkBd} {force : Bool} {found : MdOpen}

/-- The super block as it is used: a zero there means the usual block size. -/
def fixedMd (md : MdCpu) : MdCpu :=
  { md with bmBytesPerBit := if md.bmBytesPerBit = 0 then 4096 else md.bmBytesPerBit }

theorem v08MdDiskToCpu_true {cfg' : Format} (hoff : cfg.mdOffset < 2 ^ 63)
    (h : v08MdDiskToCpu dev cfg = some (true, cfg')) :
    IsValidMd (superBlockAt dev cfg.mdOffset) cfg.bdSize ∧ cfg' = { cfg with md := superBlockAt dev cfg.mdOffset } := by
  unfold v08MdDiskToCpu at h
  obtain ⟨buf, hbuf, h⟩ := Option.bind_eq_some_iff.mp h
  obtain ⟨-, rfl⟩ := preadOrDie_eq_some hbuf
  rw [toNat_signed hoff] at h
  dsimp only at h
  split at h
  · cases h
    exact ⟨‹_›, rfl⟩
  · cases h

theorem v07StyleMdOpen_true (h : v07StyleMdOpen dev .zero = some (true, cfg)) :
    mdBmOffset07 * 512 ≤ dev.size ∧ IsValidMd (superBlockAt dev (mdGetByteOffset dev.size)) dev.size ∧
      cfg = clipLaSect (located dev.size (fixedMd (superBlockAt dev (mdGetByteOffset dev.size))) ⟨0, 0⟩) := by
  unfold v07StyleMdOpen at h
  dsimp only at h
  split at h
  · cases h
  have hlarge : mdBmOffset07 * 512 ≤ dev.size := by omega
  split at h
  · cases h
  obtain ⟨⟨ok, cfg1⟩, hread, h⟩ := Option.bind_eq_some_iff.mp h
  cases ok with
  | false => cases h
  | true =>
      obtain ⟨hvalid, rfl⟩ := v08MdDiskToCpu_true (mdGetByteOffset_lt hlarge).2 hread
      cases h
      exact ⟨hlarge, hvalid, rfl⟩

theorem v08MdOpen_valid (h : v08MdOpen lk force dev .zero = some (.validMdFound, cfg)) :
    v07StyleMdOpen dev .zero = some (true, cfg) := by
  unfold v08MdOpen at h
  obtain ⟨⟨ok, cfg1⟩, hopen, h⟩ := Option.bind_eq_some_iff.mp h
  cases ok with
  | true =>
      cases h
      exact hopen
  | false =>
      obtain ⟨cfg2, hresize, h⟩ := Option.bind_eq_some_iff.mp h
      split at h <;> cases h

end Drbd.Meta
