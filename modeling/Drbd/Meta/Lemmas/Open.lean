import Drbd.Meta.Lemmas.Layout

/-!
# Looking for the meta data
-/

namespace Drbd.Meta

open Lib

variable {lk : LkBd} {force : Bool} {dev dev' : Device} {cfg cfg' : Format}

/-- The super block that begins at `off`. -/
def superBlockAt (dev : Device) (off : Nat) : MdCpu := mdDisk08ToCpu fun i => dev.byte (off + i)

/-- The super block was found at the last known location, and nowhere else. -/
structure AtLastKnown (lk : LkBd) (dev : Device) (cfg : Format) : Prop where
  lkBd : cfg.lkBd = lk
  bdSize : cfg.bdSize = dev.size
  alOffset : cfg.alOffset = 0
  bmOffset : cfg.bmOffset = 0
  large : mdBmOffset07 * 512 ≤ dev.size
  inside : mdGetByteOffset lk.bdSize < dev.size
  md : cfg.md = superBlockAt dev (mdGetByteOffset lk.bdSize)
  valid : IsValidMd cfg.md lk.bdSize
  invalid : ¬ IsValidMd (superBlockAt dev (mdGetByteOffset dev.size)) dev.size

theorem toNat_signed {n : Nat} (h : n < 2 ^ 63) : (signed 64 n).toNat = n := by
  rw [signed_eq (by omega) (by omega)]
  omega

theorem signed_pos {n : Nat} (h0 : 0 < n) (h : n < 2 ^ 63) : 0 < signed 64 n := by
  rw [signed_eq (by omega) (by omega)]
  omega

theorem v08MdDiskToCpu_false (hoff : cfg.mdOffset < 2 ^ 63)
    (h : v08MdDiskToCpu dev cfg = some (false, cfg')) :
    cfg' = cfg ∧ ¬ IsValidMd (superBlockAt dev cfg.mdOffset) cfg.bdSize := by
  unfold v08MdDiskToCpu at h
  obtain ⟨buf, hbuf, h⟩ := Option.bind_eq_some_iff.mp h
  obtain ⟨-, rfl⟩ := preadOrDie_eq_some hbuf
  rw [toNat_signed hoff] at h
  dsimp only at h
  split at h
  · cases h
  · cases h
    exact ⟨rfl, ‹_›⟩

theorem mdGetByteOffset_lt (h : mdBmOffset07 * 512 ≤ dev.size) :
    0 < mdGetByteOffset dev.size ∧ mdGetByteOffset dev.size < 2 ^ 63 := by
  have hlt := dev.size_lt
  unfold mdBmOffset07 mdAlOffset07 at h
  rw [mdGetByteOffset_eq (by omega) hlt]
  omega

theorem v07StyleMdOpen_false (h : v07StyleMdOpen dev cfg = some (false, cfg')) :
    cfg' = { cfg with bdSize := dev.size, mdOffset := mdGetByteOffset dev.size } ∧
      mdBmOffset07 * 512 ≤ dev.size ∧
      ¬ IsValidMd (superBlockAt dev (mdGetByteOffset dev.size)) dev.size := by
  unfold v07StyleMdOpen at h
  dsimp only at h
  split at h
  · cases h
  have hlarge : mdBmOffset07 * 512 ≤ dev.size := by omega
  split at h
  · cases h
  obtain ⟨⟨ok, cfg1⟩, hread, h⟩ := Option.bind_eq_some_iff.mp h
  cases ok with
  | true => cases h
  | false =>
      cases h
      obtain ⟨rfl, hvalid⟩ := v08MdDiskToCpu_false (mdGetByteOffset_lt hlarge).2 hread
      exact ⟨rfl, hlarge, hvalid⟩

/-- Either nothing was found, or a super block at the last known location. -/
theorem v08CheckForResize_cases (hbd : cfg.bdSize = dev.size)
    (h : v08CheckForResize (some lk) force dev cfg = some cfg') :
    cfg' = { cfg with lkBd := lk } ∨
      (cfg' = { cfg with lkBd := lk, md := superBlockAt dev (mdGetByteOffset lk.bdSize) } ∧
        mdGetByteOffset lk.bdSize < dev.size ∧ IsValidMd cfg'.md lk.bdSize) := by
  unfold v08CheckForResize at h
  dsimp only at h
  split at h
  · exact .inl (Option.some.inj h).symm
  split at h
  · rename_i hin
    rw [hbd] at hin
    obtain ⟨buf, hbuf, h⟩ := Option.bind_eq_some_iff.mp h
    obtain ⟨-, rfl⟩ := preadOrDie_eq_some hbuf
    rw [toNat_signed (Nat.lt_trans hin dev.size_lt)] at h
    split at h
    · rename_i hv
      cases h
      exact .inr ⟨rfl, hin, hv.1⟩
    · exact .inl (Option.some.inj h).symm
  · exact .inl (Option.some.inj h).symm

theorem AtLastKnown.of_open
    (h : v08MdOpen (some lk) force dev .zero = some (.validMdFoundAtLastKnownLocation, cfg)) :
    AtLastKnown lk dev cfg := by
  unfold v08MdOpen at h
  obtain ⟨⟨ok, cfg1⟩, hopen, h⟩ := Option.bind_eq_some_iff.mp h
  cases ok with
  | true => cases h
  | false =>
      obtain ⟨rfl, hlarge, hinvalid⟩ := v07StyleMdOpen_false hopen
      obtain ⟨cfg2, hresize, h⟩ := Option.bind_eq_some_iff.mp h
      split at h
      · cases h
      rename_i hfound
      cases h
      rcases v08CheckForResize_cases rfl hresize with rfl | ⟨rfl, hin, hvalid⟩
      · exact absurd (.inr rfl) hfound
      · exact ⟨rfl, rfl, rfl, rfl, hlarge, hin, rfl, hvalid, hinvalid⟩

/-! ## The search does not look at the first byte -/

theorem Agree.v08MdDiskToCpu (h : Agree dev dev') (h0 : 0 < cfg.mdOffset) (hlt : cfg.mdOffset < 2 ^ 63) :
    Meta.v08MdDiskToCpu dev' cfg = Meta.v08MdDiskToCpu dev cfg := by
  unfold Meta.v08MdDiskToCpu
  rw [h.preadOrDie (signed_pos h0 hlt)]

theorem Agree.v07StyleMdOpen (h : Agree dev dev') (hlarge : mdBmOffset07 * 512 ≤ dev.size) :
    Meta.v07StyleMdOpen dev' cfg = Meta.v07StyleMdOpen dev cfg := by
  obtain ⟨h0, hlt⟩ := mdGetByteOffset_lt hlarge
  unfold Meta.v07StyleMdOpen
  dsimp only
  rw [← h.size, h.v08MdDiskToCpu h0 hlt]

theorem Agree.v08CheckForResize (h : Agree dev dev') (hbd : cfg.bdSize = dev.size)
    (hold : 0 < mdGetByteOffset lk.bdSize) :
    Meta.v08CheckForResize (some lk) force dev' cfg = Meta.v08CheckForResize (some lk) force dev cfg := by
  unfold Meta.v08CheckForResize
  dsimp only
  split
  · rfl
  split
  · rename_i hin
    rw [hbd] at hin
    rw [h.preadOrDie (signed_pos hold (Nat.lt_trans hin dev.size_lt))]
  · rfl

theorem Agree.v08MdOpen (h : Agree dev dev') (hlarge : mdBmOffset07 * 512 ≤ dev.size)
    (hold : 0 < mdGetByteOffset lk.bdSize) :
    Meta.v08MdOpen (some lk) force dev' cfg = Meta.v08MdOpen (some lk) force dev cfg := by
  unfold Meta.v08MdOpen
  rw [h.v07StyleMdOpen hlarge]
  cases hr : Meta.v07StyleMdOpen dev cfg with
  | none => simp only [Option.bind_eq_bind, Option.bind_none]
  | some r =>
      obtain ⟨ok, cfg1⟩ := r
      cases ok with
      | true => simp only [Option.bind_eq_bind, Option.bind_some, if_true]
      | false =>
          obtain ⟨hcfg, -, -⟩ := v07StyleMdOpen_false hr
          have hbd : cfg1.bdSize = dev.size := by rw [hcfg]
          simp only [Option.bind_eq_bind, Option.bind_some, h.v08CheckForResize hbd hold]

end Drbd.Meta
