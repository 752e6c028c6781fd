import Drbd.Meta.Lemmas.SuperBlock
import Drbd.Meta.Lemmas.Open
import Drbd.Meta.Restore

/-!
# What the parser makes of a dumped super block
-/

namespace Drbd.Meta

open Lib

variable {md md0 : MdCpu} {cfg cfg' : Format} {dev : Device} {lk : Option LkBd} {force : Bool}

/-- The super block is one that the kernel attaches, its meta data lies on the device, and the tool has the types for
the numbers. -/
structure Dumpable (md : MdCpu) (size : Nat) : Prop where
  magic : md.magic = mdMagic08
  valid : IsValidMd md size
  bytesPerBit : md.bmBytesPerBit = 4096
  stripes : md.alStripes * md.alStripeSize4k ≤ 2 ^ 22
  peerMaxBioSize : md.laPeerMaxBioSize < 2 ^ 31
  laSect : md.laSect ≤ 2 ^ 38 - 2 ^ 18
  small : size ≤ 2 ^ 50
  fits : 0 ≤ bmStart md size

/-- The members that a v08 dump has; the striping only when it is not the default. -/
def parsedMd (md0 md : MdCpu) : MdCpu :=
  let striped := md.alStripes ≠ 1 ∨ md.alStripeSize4k ≠ 8
  { md0 with
    uuid := md.uuid
    flags := md.flags
    laSect := md.laSect
    bmBytesPerBit := md.bmBytesPerBit
    deviceUuid := md.deviceUuid
    laPeerMaxBioSize := md.laPeerMaxBioSize
    alStripes := if striped then md.alStripes else md0.alStripes
    alStripeSize4k := if striped then md.alStripeSize4k else md0.alStripeSize4k }

theorem printNum_of_lt {v : Nat} (h : v < 2 ^ 32) : printNum v = .num v := if_pos (by omega)

theorem signed_of_lt {v : Nat} (h : v < 2 ^ 31) : signed 32 v = v := signed_eq_self (by omega) (by omega)

theorem printInt_of_lt {v : Nat} (h : v < 2 ^ 31) : printInt (signed 32 v) = .num v := by
  unfold printInt
  rw [signed_of_lt h, if_pos (by omega), Int.toNat_natCast, printNum_of_lt (by omega)]

theorem uuid_eta (u : Fin 4 → Nat) : (fun | 0 => u 0 | 1 => u 1 | 2 => u 2 | 3 => u 3 : Fin 4 → Nat) = u := by
  funext i
  match i with
  | 0 | 1 | 2 | 3 => rfl

theorem parseHeader_dumped (hrange : md.InRange) (hbio : md.laPeerMaxBioSize < 2 ^ 31) (hla : md.laSect < 10 ^ 19)
    (ts : List Token) :
    parseHeader md0 (versionTokens ++ headerTokens md ++ .bm :: ts) = some (parsedMd md0 md, ts) := by
  have hbpb := Nat.mod_eq_of_lt hrange.bmBytesPerBit
  have hpeer := Nat.mod_eq_of_lt hrange.laPeerMaxBioSize
  have hstripes := Nat.mod_eq_of_lt hrange.alStripes
  have hsize4k := Nat.mod_eq_of_lt hrange.alStripeSize4k
  unfold headerTokens stripeTokens parsedMd
  rw [show printNum md.laSect = .num md.laSect from if_pos hla, printNum_of_lt hrange.bmBytesPerBit,
    printInt_of_lt hbio]
  by_cases hstriped : md.alStripes ≠ 1 ∨ md.alStripeSize4k ≠ 8
  · simp only [if_pos hstriped, printNum_of_lt hrange.alStripes, printNum_of_lt hrange.alStripeSize4k]
    conv_rhs => rw [← uuid_eta md.uuid, ← hbpb, ← hpeer, ← hstripes, ← hsize4k]
    rfl
  · simp only [if_neg hstriped]
    conv_rhs => rw [← uuid_eta md.uuid, ← hbpb, ← hpeer]
    rfl

/-! ## The format around the super block -/

/-- The format of internal meta data with this super block. -/
def located (size : Nat) (md : MdCpu) (lkBd : LkBd) : Format :=
  Format.setOffsets ⟨size, mdGetByteOffset size, 0, 0, 0, md, lkBd⟩

/-- The offsets that the tool computes for the striping of this super block. -/
def withOffsets (size : Nat) (md : MdCpu) : MdCpu :=
  { md with
    alOffset := signed 32 (-alSizeSect md)
    mdSizeSect := unsigned 32 (flexMdSizeSect md size)
    bmOffset := signed 32 (-flexMdSizeSect md size + mdAlOffset07) }

theorem bmSizeSect_le {size : Nat} (h : size ≤ 2 ^ 50) : bmSizeSect size ≤ mdBmMaxSectFlex := by
  rw [bmSizeSect_eq (by omega)]
  unfold mdBmMaxSectFlex
  omega

/-- The super block that a restore writes. -/
def restoredMd (md : MdCpu) : MdCpu := { md with alNrExtents := 257 }

end Drbd.Meta
