import Drbd.Meta.Defs
import Mathlib.Data.List.GetD

/-!
# Writing the super block and reading it back
-/

namespace Drbd.Meta

open Lib

variable {md : MdCpu}

/-- Every member has a value of its type on disk. -/
structure MdCpu.InRange (md : MdCpu) : Prop where
  laSect : md.laSect < 2 ^ 64
  uuid : ∀ i, md.uuid i < 2 ^ 64
  deviceUuid : md.deviceUuid < 2 ^ 64
  flags : md.flags < 2 ^ 32
  magic : md.magic < 2 ^ 32
  mdSizeSect : md.mdSizeSect < 2 ^ 32
  alOffset : -2 ^ 31 ≤ md.alOffset ∧ md.alOffset < 2 ^ 31
  alNrExtents : md.alNrExtents < 2 ^ 32
  bmOffset : -2 ^ 31 ≤ md.bmOffset ∧ md.bmOffset < 2 ^ 31
  bmBytesPerBit : md.bmBytesPerBit < 2 ^ 32
  laPeerMaxBioSize : md.laPeerMaxBioSize < 2 ^ 32
  alStripes : md.alStripes < 2 ^ 32
  alStripeSize4k : md.alStripeSize4k < 2 ^ 32

theorem beNat_lt_u64 (buf : Nat → UInt8) (off : Nat) : beNat buf off 8 < 2 ^ 64 := by
  have := beNat_lt buf off 8
  omega

theorem beNat_lt_u32 (buf : Nat → UInt8) (off : Nat) : beNat buf off 4 < 2 ^ 32 := by
  have := beNat_lt buf off 4
  omega

theorem signed_range (n : Int) : -2 ^ 31 ≤ signed 32 n ∧ signed 32 n < 2 ^ 31 :=
  ⟨le_signed 31 n, signed_lt 31 n⟩

theorem inRange_mdDisk08ToCpu (buf : Nat → UInt8) : (mdDisk08ToCpu buf).InRange where
  laSect := beNat_lt_u64 buf 0
  uuid i := beNat_lt_u64 buf (8 + 8 * i)
  deviceUuid := beNat_lt_u64 buf 40
  flags := beNat_lt_u32 buf 56
  magic := beNat_lt_u32 buf 60
  mdSizeSect := beNat_lt_u32 buf 64
  alOffset := by
    have := signed_range (beNat buf 68 4)
    unfold mdDisk08ToCpu
    dsimp only
    omega
  alNrExtents := beNat_lt_u32 buf 72
  bmOffset := by
    have := signed_range (beNat buf 76 4)
    unfold mdDisk08ToCpu
    dsimp only
    omega
  bmBytesPerBit := beNat_lt_u32 buf 80
  laPeerMaxBioSize := beNat_lt_u32 buf 84
  alStripes := by
    have := beNat_lt_u32 buf 88
    unfold mdDisk08ToCpu
    dsimp only
    split <;> omega
  alStripeSize4k := by
    have := beNat_lt_u32 buf 92
    unfold mdDisk08ToCpu
    dsimp only
    split <;> omega

/-- The bytes of the numbers of a record, one behind the other. -/
def fieldBytes (fs : List (Nat × Nat)) : Nat → UInt8 := fun i => (fs.flatMap fun f => beBytes f.1 f.2).getD i 0

/-- A number is read back behind those before it. -/
theorem beNat_fieldBytes (fs : List (Nat × Nat)) (k : Nat) {off w v : Nat} (hfield : fs[k]? = some (w, v))
    (hoff : ((fs.map (·.1)).take k).sum = off) (hv : v < 256 ^ w) : beNat (fieldBytes fs) off w = v := by
  obtain ⟨hk, hfield⟩ := List.getElem?_eq_some_iff.1 hfield
  have hpre : ((fs.take k).flatMap fun f => beBytes f.1 f.2).length = off := by
    rw [List.length_flatMap, ← hoff, ← List.map_take]
    simp only [length_beBytes]
  have hsplit : (fs.flatMap fun f => beBytes f.1 f.2) = ((fs.take k).flatMap fun f => beBytes f.1 f.2)
      ++ (beBytes w v ++ (fs.drop (k + 1)).flatMap fun f => beBytes f.1 f.2) := by
    conv_lhs => rw [← List.take_append_drop k fs, List.drop_eq_getElem_cons hk, hfield]
    rw [List.flatMap_append, List.flatMap_cons]
  rw [beNat_beBytes (v := v) fun i hi => ?_, Nat.mod_eq_of_lt hv]
  unfold fieldBytes
  rw [hsplit, List.getD_append_right _ _ _ _ (by omega), hpre, Nat.add_sub_cancel_left,
    List.getD_append _ _ _ _ hi, List.getD_eq_getElem _ _ hi]

theorem signed_unsigned {z : Int} (h : -2 ^ 31 ≤ z ∧ z < 2 ^ 31) : signed 32 (unsigned 32 z) = z := by
  unfold unsigned
  rw [Int.toNat_of_nonneg (Int.emod_nonneg z (by decide))]
  unfold signed
  rw [show ((2 : Int) ^ 32) = ((2 ^ 32 : Nat) : Int) by decide, Int.emod_bmod]
  exact signed_eq_self h.1 h.2

theorem unsigned_lt (z : Int) : unsigned 32 z < 2 ^ 32 := by
  unfold unsigned
  omega

/-- The members of `struct md_on_disk_08` in their order, each with its bytes. -/
def mdFields (md : MdCpu) : List (Nat × Nat) :=
  [(8, md.laSect), (8, md.uuid 0), (8, md.uuid 1), (8, md.uuid 2), (8, md.uuid 3), (8, md.deviceUuid), (8, 0),
    (4, md.flags), (4, md.magic), (4, md.mdSizeSect), (4, unsigned 32 md.alOffset), (4, md.alNrExtents),
    (4, unsigned 32 md.bmOffset), (4, md.bmBytesPerBit), (4, md.laPeerMaxBioSize), (4, md.alStripes),
    (4, md.alStripeSize4k)]

def mdWidths : List Nat := [8, 8, 8, 8, 8, 8, 8, 4, 4, 4, 4, 4, 4, 4, 4, 4, 4]

theorem mdCpuToDisk08_eq (md : MdCpu) : mdCpuToDisk08 md = fieldBytes (mdFields md) := by
  unfold mdCpuToDisk08 fieldBytes mdFields
  simp only [List.append_assoc, List.flatMap_cons, List.flatMap_nil, List.append_nil]
  rfl

/-- What the super block says survives the writing and the reading; unset stripes would not. -/
theorem mdDisk08ToCpu_mdCpuToDisk08 (h : md.InRange) (hset : ¬ (md.alStripes = 0 ∧ md.alStripeSize4k = 0)) :
    mdDisk08ToCpu (mdCpuToDisk08 md) = md := by
  rw [mdCpuToDisk08_eq]
  have field8 (k off : Nat) {v : Nat} (hv : v < 2 ^ 64) (hfield : (mdFields md)[k]? = some (8, v))
      (hoff : (mdWidths.take k).sum = off) : beNat (fieldBytes (mdFields md)) off 8 = v :=
    beNat_fieldBytes _ k hfield hoff (by omega)
  have field4 (k off : Nat) {v : Nat} (hv : v < 2 ^ 32) (hfield : (mdFields md)[k]? = some (4, v))
      (hoff : (mdWidths.take k).sum = off) : beNat (fieldBytes (mdFields md)) off 4 = v :=
    beNat_fieldBytes _ k hfield hoff (by omega)
  have huuid : ∀ i : Fin 4, beNat (fieldBytes (mdFields md)) (8 + 8 * i) 8 = md.uuid i := by
    intro i
    match i with
    | 0 => exact field8 1 8 (h.uuid 0) rfl (by decide)
    | 1 => exact field8 2 16 (h.uuid 1) rfl (by decide)
    | 2 => exact field8 3 24 (h.uuid 2) rfl (by decide)
    | 3 => exact field8 4 32 (h.uuid 3) rfl (by decide)
  unfold mdDisk08ToCpu
  simp only [huuid, field8 0 0 h.laSect rfl (by decide), field8 5 40 h.deviceUuid rfl (by decide),
    field4 7 56 h.flags rfl (by decide),
    field4 8 60 h.magic rfl (by decide), field4 9 64 h.mdSizeSect rfl (by decide),
    field4 10 68 (unsigned_lt md.alOffset) rfl (by decide),
    field4 11 72 h.alNrExtents rfl (by decide), field4 12 76 (unsigned_lt md.bmOffset) rfl (by decide),
    field4 13 80 h.bmBytesPerBit rfl (by decide), field4 14 84 h.laPeerMaxBioSize rfl (by decide),
    field4 15 88 h.alStripes rfl (by decide),
    field4 16 92 h.alStripeSize4k rfl (by decide), if_neg hset, signed_unsigned h.alOffset, signed_unsigned h.bmOffset]

end Drbd.Meta
