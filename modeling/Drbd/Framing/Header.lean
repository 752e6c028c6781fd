import Drbd.Framing.Defs

/-!
# The header of a packet

`prepare_header` chooses one of three formats by the protocol version and the size; `decode_header`
knows them apart by the magic number.
-/

namespace Drbd.Framing

open Lib Xfer

variable {agreedProVersion vnr cmd size : Nat} {pre post payload : List UInt8}

/-! ## Writing a header -/

def DRBD_MAX_SIZE_H80_PACKET : Nat := 2 ^ 15

def prepareHeader80 (cmd size : Nat) : List UInt8 :=
  beBytes 4 DRBD_MAGIC ++ beBytes 2 cmd ++ beBytes 2 size

def prepareHeader95 (cmd size : Nat) : List UInt8 :=
  beBytes 2 DRBD_MAGIC_BIG ++ beBytes 2 cmd ++ beBytes 4 size

def prepareHeader100 (cmd size vnr : Nat) : List UInt8 :=
  beBytes 4 DRBD_MAGIC_100 ++ beBytes 2 vnr ++ beBytes 2 cmd ++ beBytes 4 size ++ beBytes 4 0

def prepareHeader (agreedProVersion vnr cmd size : Nat) : List UInt8 :=
  if 100 ≤ agreedProVersion then prepareHeader100 cmd size vnr
  else if 95 ≤ agreedProVersion ∧ DRBD_MAX_SIZE_H80_PACKET < size then prepareHeader95 cmd size
  else prepareHeader80 cmd size

/-! ## What the senders pass -/

/-- The largest bio that `drbd_reconsider_max_bio_size` admits for a peer of this version. -/
def peerMaxBioSize (agreedProVersion : Nat) : Nat :=
  if agreedProVersion < 95 then DRBD_MAX_SIZE_H80_PACKET
  else if agreedProVersion < 100 then 2 ^ 17
  else DRBD_MAX_BIO_SIZE

/-- A packet is what fits into the buffer of the socket, and at most the data of one bio. -/
structure MaySend (agreedProVersion vnr cmd size : Nat) : Prop where
  vnr : vnr < 2 ^ 16
  cmd : cmd < 2 ^ 16
  size : size ≤ DRBD_SOCKET_BUFFER_SIZE + peerMaxBioSize agreedProVersion

/-- The volume a header carries: before version 100 there is no field for it. -/
def carriedVolume (agreedProVersion vnr : Nat) : Nat :=
  if 100 ≤ agreedProVersion then vnr else 0

/-! ## Reading what was written -/

theorem field_beBytes (pre post : List UInt8) (n v : Nat) :
    field (pre ++ beBytes n v ++ post) pre.length n = v % 256 ^ n := by
  refine beNat_beBytes fun i hi => ?_
  rw [List.append_assoc, List.getD_append_right _ _ _ _ (Nat.le_add_right _ _), Nat.add_sub_cancel_left,
    List.getD_append _ _ _ _ hi, List.getD_eq_getElem _ _ hi]

theorem field_of_eq {buf : List UInt8} {off n v : Nat} (hbuf : buf = pre ++ beBytes n v ++ post)
    (hoff : off = pre.length) (hv : v < 256 ^ n) : field buf off n = v := by
  rw [hbuf, hoff, field_beBytes, Nat.mod_eq_of_lt hv]

theorem length_prepareHeader :
    (prepareHeader agreedProVersion vnr cmd size).length = drbdHeaderSize agreedProVersion := by
  unfold prepareHeader drbdHeaderSize
  split
  · rfl
  · split <;> rfl

theorem field_two (header : List UInt8) : field header 0 2 = field header 0 4 / 2 ^ 16 := by
  have h2 := (header.getD 2 0).toNat_lt
  have h3 := (header.getD 3 0).toNat_lt
  simp only [field, beNat, Nat.zero_add]
  omega

theorem magic_prepareHeader80 : field (prepareHeader80 cmd size ++ payload) 0 4 = DRBD_MAGIC ∧
    field (prepareHeader80 cmd size ++ payload) 0 2 ≠ DRBD_MAGIC_BIG := by
  have hmagic : field (prepareHeader80 cmd size ++ payload) 0 4 = DRBD_MAGIC :=
    @field_of_eq [] (beBytes 2 cmd ++ beBytes 2 size ++ payload) _ 0 4 DRBD_MAGIC
      (by simp only [prepareHeader80, List.nil_append, List.append_assoc]) rfl (by decide)
  refine ⟨hmagic, ?_⟩
  rw [field_two, hmagic]
  decide

theorem magic_prepareHeader95 : field (prepareHeader95 cmd size ++ payload) 0 2 = DRBD_MAGIC_BIG :=
  @field_of_eq [] (beBytes 2 cmd ++ beBytes 4 size ++ payload) _ 0 2 DRBD_MAGIC_BIG
    (by simp only [prepareHeader95, List.nil_append, List.append_assoc]) rfl (by decide)

theorem magic_prepareHeader100 : field (prepareHeader100 cmd size vnr ++ payload) 0 4 = DRBD_MAGIC_100 ∧
    field (prepareHeader100 cmd size vnr ++ payload) 0 2 ≠ DRBD_MAGIC_BIG ∧
    field (prepareHeader100 cmd size vnr ++ payload) 12 4 = 0 := by
  have hmagic : field (prepareHeader100 cmd size vnr ++ payload) 0 4 = DRBD_MAGIC_100 :=
    @field_of_eq [] (beBytes 2 vnr ++ beBytes 2 cmd ++ beBytes 4 size ++ beBytes 4 0 ++ payload) _ 0 4 DRBD_MAGIC_100
      (by simp only [prepareHeader100, List.nil_append, List.append_assoc]) rfl (by decide)
  refine ⟨hmagic, ?_, ?_⟩
  · rw [field_two, hmagic]
    decide
  · exact @field_of_eq (beBytes 4 DRBD_MAGIC_100 ++ beBytes 2 vnr ++ beBytes 2 cmd ++ beBytes 4 size) payload _ 12 4 0
      rfl rfl (by decide)

theorem decodeHeader_prepareHeader80 (payload : List UInt8) (hsize : drbdHeaderSize agreedProVersion = 8)
    (hcmd : cmd < 2 ^ 16) (hlen : size < 2 ^ 16) :
    decodeHeader agreedProVersion (prepareHeader80 cmd size ++ payload) = some ⟨cmd, size, 0⟩ := by
  obtain ⟨hmagic, hbig⟩ := @magic_prepareHeader80 cmd size payload
  have hc : field (prepareHeader80 cmd size ++ payload) 4 2 = cmd :=
    @field_of_eq (beBytes 4 DRBD_MAGIC) (beBytes 2 size ++ payload) _ 4 2 cmd
      (by simp only [prepareHeader80, List.append_assoc]) rfl hcmd
  have hl : field (prepareHeader80 cmd size ++ payload) 6 2 = size :=
    @field_of_eq (beBytes 4 DRBD_MAGIC ++ beBytes 2 cmd) payload _ 6 2 size
      (by simp only [prepareHeader80, List.append_assoc]) rfl hlen
  unfold decodeHeader
  dsimp only
  rw [hsize, if_neg (by omega), if_neg (fun h => hbig h.2), if_pos ⟨rfl, hmagic⟩, hc, hl]

theorem decodeHeader_prepareHeader95 (payload : List UInt8) (hsize : drbdHeaderSize agreedProVersion = 8)
    (hcmd : cmd < 2 ^ 16) (hlen : size < 2 ^ 32) :
    decodeHeader agreedProVersion (prepareHeader95 cmd size ++ payload) = some ⟨cmd, size, 0⟩ := by
  have hc : field (prepareHeader95 cmd size ++ payload) 2 2 = cmd :=
    @field_of_eq (beBytes 2 DRBD_MAGIC_BIG) (beBytes 4 size ++ payload) _ 2 2 cmd
      (by simp only [prepareHeader95, List.append_assoc]) rfl hcmd
  have hl : field (prepareHeader95 cmd size ++ payload) 4 4 = size :=
    @field_of_eq (beBytes 2 DRBD_MAGIC_BIG ++ beBytes 2 cmd) payload _ 4 4 size
      (by simp only [prepareHeader95, List.append_assoc]) rfl hlen
  unfold decodeHeader
  dsimp only
  rw [hsize, if_neg (by omega), if_pos ⟨rfl, magic_prepareHeader95⟩, hc, hl]

theorem decodeHeader_prepareHeader100 (payload : List UInt8) (hsize : drbdHeaderSize agreedProVersion = 16)
    (hvnr : vnr < 2 ^ 16) (hcmd : cmd < 2 ^ 16) (hlen : size < 2 ^ 32) :
    decodeHeader agreedProVersion (prepareHeader100 cmd size vnr ++ payload) = some ⟨cmd, size, vnr⟩ := by
  obtain ⟨hmagic, _, hpad⟩ := @magic_prepareHeader100 vnr cmd size payload
  have hv : field (prepareHeader100 cmd size vnr ++ payload) 4 2 = vnr :=
    @field_of_eq (beBytes 4 DRBD_MAGIC_100) (beBytes 2 cmd ++ beBytes 4 size ++ beBytes 4 0 ++ payload) _ 4 2 vnr
      (by simp only [prepareHeader100, List.append_assoc]) rfl hvnr
  have hc : field (prepareHeader100 cmd size vnr ++ payload) 6 2 = cmd :=
    @field_of_eq (beBytes 4 DRBD_MAGIC_100 ++ beBytes 2 vnr) (beBytes 4 size ++ beBytes 4 0 ++ payload) _ 6 2 cmd
      (by simp only [prepareHeader100, List.append_assoc]) rfl hcmd
  have hl : field (prepareHeader100 cmd size vnr ++ payload) 8 4 = size :=
    @field_of_eq (beBytes 4 DRBD_MAGIC_100 ++ beBytes 2 vnr ++ beBytes 2 cmd) (beBytes 4 0 ++ payload) _ 8 4 size
      (by simp only [prepareHeader100, List.append_assoc]) rfl hlen
  unfold decodeHeader
  dsimp only
  rw [hsize, if_pos ⟨rfl, hmagic⟩, if_neg (not_ne_iff.2 hpad), hc, hl, hv]

/-! ## The formats exclude each other -/

/-- The formats a buffer looks like, by its magic number alone. -/
def magicOf (header : List UInt8) : List Nat :=
  (if field header 0 4 = DRBD_MAGIC_100 then [100] else []) ++
  (if field header 0 2 = DRBD_MAGIC_BIG then [95] else []) ++
  (if field header 0 4 = DRBD_MAGIC then [80] else [])

theorem length_magicOf_le (header : List UInt8) : (magicOf header).length ≤ 1 := by
  have h := field_two header
  unfold magicOf
  generalize field header 0 4 = magic at h ⊢
  rw [h]
  unfold DRBD_MAGIC_100 DRBD_MAGIC_BIG DRBD_MAGIC
  split
  · rw [if_neg (by omega), if_neg (by omega)]
    exact le_refl _
  · split
    · rw [if_neg (by omega)]
      exact le_refl _
    · split <;> decide

/-- What a header of one size is not, for a receiver of the other. -/
theorem decodeHeader_other {other : Nat} (payload : List UInt8)
    (h : drbdHeaderSize other ≠ drbdHeaderSize agreedProVersion) :
    decodeHeader other (prepareHeader agreedProVersion vnr cmd size ++ payload) = none := by
  have h8 : ∀ v, ¬ 100 ≤ v → drbdHeaderSize v = 8 := fun v hv => if_neg hv
  have h16 : ∀ v, 100 ≤ v → drbdHeaderSize v = 16 := fun v hv => if_pos hv
  unfold decodeHeader
  dsimp only
  by_cases hnew : 100 ≤ agreedProVersion
  · have hother : ¬ 100 ≤ other := fun ho => h (by rw [h16 _ ho, h16 _ hnew])
    obtain ⟨hmagic, hbig, _⟩ := @magic_prepareHeader100 vnr cmd size payload
    rw [h8 _ hother, prepareHeader, if_pos hnew, if_neg (by omega), if_neg (fun hb => hbig hb.2), if_neg]
    rw [hmagic]
    decide
  · have hother : 100 ≤ other := by
      by_contra ho
      exact h (by rw [h8 _ ho, h8 _ hnew])
    have hmagic : field (prepareHeader agreedProVersion vnr cmd size ++ payload) 0 4 ≠ DRBD_MAGIC_100 := by
      intro hm
      unfold prepareHeader at hm
      rw [if_neg hnew] at hm
      split at hm
      · have htwo := field_two (prepareHeader95 cmd size ++ payload)
        rw [hm, magic_prepareHeader95] at htwo
        exact absurd htwo (by decide)
      · rw [magic_prepareHeader80.1] at hm
        exact absurd hm (by decide)
    rw [h16 _ hother, if_neg (fun hm => hmagic hm.2), if_neg (by omega), if_neg (by omega)]

/-- Whatever is sent is decoded as what it is, but for the volume before version 100; the payload starts
after the header; no buffer has the magic numbers of two formats, and what a header is decoded as
at any other version is the same or nothing. -/
theorem header_round_trip {agreedProVersion vnr cmd size : Nat} (h : MaySend agreedProVersion vnr cmd size)
    (payload : List UInt8) :
    decodeHeader agreedProVersion (prepareHeader agreedProVersion vnr cmd size ++ payload)
      = some ⟨cmd, size, carriedVolume agreedProVersion vnr⟩ ∧
    (prepareHeader agreedProVersion vnr cmd size ++ payload).drop (drbdHeaderSize agreedProVersion) = payload ∧
    (∀ header, (magicOf header).length ≤ 1) ∧
    ∀ other info, decodeHeader other (prepareHeader agreedProVersion vnr cmd size ++ payload) = some info →
      info = ⟨cmd, size, carriedVolume agreedProVersion vnr⟩ := by
  obtain ⟨hvnr, hcmd, hsize⟩ := h
  -- every receiver with headers of this size reads the same
  have hread : ∀ v, drbdHeaderSize v = drbdHeaderSize agreedProVersion →
      decodeHeader v (prepareHeader agreedProVersion vnr cmd size ++ payload)
        = some ⟨cmd, size, carriedVolume agreedProVersion vnr⟩ := by
    intro v hv
    unfold peerMaxBioSize DRBD_MAX_SIZE_H80_PACKET DRBD_SOCKET_BUFFER_SIZE DRBD_MAX_BIO_SIZE at hsize
    unfold prepareHeader carriedVolume
    split
    · rename_i hnew
      rw [drbdHeaderSize, drbdHeaderSize, if_pos hnew] at hv
      rw [if_neg (by omega), if_neg (by omega)] at hsize
      exact decodeHeader_prepareHeader100 payload hv hvnr hcmd (by omega)
    · rename_i hold
      rw [drbdHeaderSize, drbdHeaderSize, if_neg hold] at hv
      split
      · rename_i hbig
        rw [if_neg (by omega), if_pos (by omega)] at hsize
        exact decodeHeader_prepareHeader95 payload hv hcmd (by omega)
      · rename_i hsmall
        refine decodeHeader_prepareHeader80 payload hv hcmd ?_
        unfold DRBD_MAX_SIZE_H80_PACKET at hsmall
        by_cases h95 : agreedProVersion < 95
        · rw [if_pos h95] at hsize
          omega
        · omega
  refine ⟨hread _ rfl, ?_, length_magicOf_le, fun other info hinfo => ?_⟩
  · rw [← @length_prepareHeader agreedProVersion vnr cmd size, List.drop_left]
  · by_cases hv : drbdHeaderSize other = drbdHeaderSize agreedProVersion
    · rw [hread other hv, Option.some.injEq] at hinfo
      exact hinfo.symm
    · rw [decodeHeader_other payload hv] at hinfo
      cases hinfo

/-- A packet of 64 kB of data to a peer of version 96. -/
theorem header_round_trip_big :
    decodeHeader 96 (prepareHeader 96 0 0 65560 ++ [7]) = some ⟨0, 65560, 0⟩ :=
  (header_round_trip (⟨by decide, by decide, by decide⟩ : MaySend 96 0 0 65560) [7]).1

/-- A write to volume 1 is a write to volume 0 for a peer of version 99. -/
theorem header_loses_volume : MaySend 99 1 0 4120 ∧
    decodeHeader 99 (prepareHeader 99 1 0 4120) = some ⟨0, 4120, 0⟩ :=
  ⟨⟨by decide, by decide, by decide⟩, by decide⟩

end Drbd.Framing
