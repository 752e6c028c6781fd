import Drbd.Meta.Lemmas.Opened
import Drbd.Meta.Lemmas.Write

/-!
# Dump and restore

What `dump-md` prints is accepted by `verify-dump` and `restore-md`, and restoring it on a device of the same size
gives the same meta data.
-/

namespace Drbd.Meta

open Lib

variable {dev dev' : Device} {cfg : Format} {lk lk' : Option LkBd} {force force' : Bool} {found : MdOpen} {hs : Nat}

/-- `restored` is `dev'` with the meta data of the dumped device. -/
structure Restored (cfg : Format) (dev dev' restored : Device) : Prop where
  size : restored.size = dev'.size
  superBlock : superBlockAt restored (mdGetByteOffset dev.size) = restoredMd cfg.md
  bitmap : ∀ bmBytes, cfg.bmBytes = some bmBytes → ∀ x < bmBytes,
    restored.byte (cfg.bmOffset + x) = dev.byte (cfg.bmOffset + x)
  frame : ∀ x, ¬ (cfg.bmOffset ≤ x ∧ x < cfg.bmOffset + bmSizeSect dev.size * 512) →
    ¬ (mdGetByteOffset dev.size ≤ x ∧ x < mdGetByteOffset dev.size + 4096) → restored.byte x = dev'.byte x

/-! ## Where the bitmap lies -/

theorem Dumpable.alSize {md : MdCpu} {size : Nat} (hd : Dumpable md size) :
    0 ≤ alSizeSect md ∧ alSizeSect md ≤ 2 ^ 25 := by
  have hle := hd.stripes
  unfold alSizeSect
  rw [signed_of_lt (by omega)]
  omega

/-- The offset of the bitmap is not wrapped, in the numbers alone. -/
theorem bmOffset_arith {a bmOff : Int} {b g : Nat} (ha0 : 0 ≤ a) (ha : a ≤ 2 ^ 25) (hb : b ≤ 2 ^ 26) (hg : g < 2 ^ 50)
    (hfits : 0 ≤ (g : Int) - a * 512 - b * 512) (hbm : bmOff = -signed 64 (unsigned 64 (b + (8 + a))) + 8) :
    (unsigned 64 (g + bmOff * 512) : Int) = g - a * 512 - b * 512 := by
  have hflex : (unsigned 64 (b + (8 + a)) : Int) = b + (8 + a) := by
    unfold unsigned
    omega
  rw [hflex, signed_eq (by omega) (by omega)] at hbm
  unfold unsigned
  omega

theorem Dumpable.bmOffset {md : MdCpu} {size : Nat} (hd : Dumpable md size) (hlarge : mdBmOffset07 * 512 ≤ size)
    (lkBd : LkBd) :
    ((located size md lkBd).bmOffset : Int) = bmStart md size ∧
      signed 64 (located size md lkBd).bmOffset = bmStart md size := by
  have hsmall := hd.small
  obtain ⟨hal0, hal⟩ := hd.alSize
  obtain ⟨-, -, hbm, -⟩ := hd.valid
  have hoff : mdGetByteOffset size < 2 ^ 50 := by
    unfold mdBmOffset07 mdAlOffset07 at hlarge
    rw [mdGetByteOffset_eq (by omega) (by omega)]
    omega
  have heq : ((located size md lkBd).bmOffset : Int) = bmStart md size :=
    bmOffset_arith hal0 hal (bmSizeSect_le hsmall) hoff hd.fits hbm
  have hlt : bmStart md size < 2 ^ 63 := by
    unfold bmStart alStart
    generalize alSizeSect md = a at *
    omega
  exact ⟨heq, by rw [heq, signed_eq (Int.le_trans (by decide) hd.fits) hlt]⟩

/-- The bitmap of a dumpable super block, in bytes; it fits its place. -/
theorem Dumpable.bmBytes {md : MdCpu} {size : Nat} (hd : Dumpable md size) (hcfg : cfg.md = md)
    (hla : md.laSect ≤ size / 512) : ∃ n, cfg.bmBytes = some (8 * n) ∧ n < 2 ^ 29 ∧ 8 * n + 4096 ≤ 2 ^ 32 ∧
      align (8 * n) 4096 ≤ bmSizeSect size * 512 := by
  have hle := hd.laSect
  have hsmall := hd.small
  refine ⟨((md.laSect + 7) / 8 + 63) / 64, ?_, by omega, by omega, ?_⟩
  · unfold Format.bmBytes bmWords
    rw [hcfg, hd.bytesPerBit, show unsigned 64 (Int.tdiv (signed 32 (4096 : Nat)) 512) = 8 by decide]
    simp only [Option.bind_eq_bind]
    rw [if_neg (by decide), Option.bind_some]
    congr 1
    unfold align
    omega
  · rw [bmSizeSect_eq (by omega)]
    unfold align
    omega

/-- What the tool knows of a device on which it found the meta data. -/
structure Opened (dev : Device) (cfg : Format) : Prop where
  large : mdBmOffset07 * 512 ≤ dev.size
  located : cfg = located dev.size cfg.md ⟨0, 0⟩
  inRange : cfg.md.InRange
  laSect : cfg.md.laSect ≤ (Meta.located dev.size cfg.md ⟨0, 0⟩).maxUsableSect
  set : ¬ (cfg.md.alStripes = 0 ∧ cfg.md.alStripeSize4k = 0)

theorem Opened.of_open (h : v08MdOpen lk force dev .zero = some (.validMdFound, cfg)) : Opened dev cfg := by
  obtain ⟨hlarge, -, hcfg⟩ := v07StyleMdOpen_true (v08MdOpen_valid h)
  have hrange := inRange_mdDisk08ToCpu fun i => dev.byte (mdGetByteOffset dev.size + i)
  generalize hsb : superBlockAt dev (mdGetByteOffset dev.size) = sb at hcfg
  unfold superBlockAt at hsb
  rw [hsb] at hrange
  have hset : ¬ (sb.alStripes = 0 ∧ sb.alStripeSize4k = 0) := by
    rw [← hsb]
    unfold mdDisk08ToCpu
    dsimp only
    split <;> omega
  subst hcfg
  refine ⟨hlarge, rfl, ?_, Nat.min_le_right _ _, hset⟩
  refine { hrange with laSect := ?_, bmBytesPerBit := ?_ }
  · exact Nat.lt_of_le_of_lt (Nat.min_le_left _ _) hrange.laSect
  · change (if sb.bmBytesPerBit = 0 then 4096 else sb.bmBytesPerBit) < 2 ^ 32
    have := hrange.bmBytesPerBit
    split <;> omega

/-! ## The dump -/

/-- Everything that a dump of this device says: the super block, and pieces that spell the bitmap. -/
structure DumpOf (dev : Device) (cfg : Format) (hs n : Nat) (tokens : List Token) (ps : List (Piece Nat)) : Prop where
  bmBytes : cfg.bmBytes = some (8 * n)
  tokens : tokens = versionTokens ++ headerTokens cfg.md ++ .bm :: .lbrace :: (ps.flatMap pieceTokens ++ [.rbrace])
  printed : Printed dev (bmStart cfg.md dev.size) hs n ps
  area : BmArea dev hs n (bmStart cfg.md dev.size)
  small : n < 2 ^ 29 ∧ 8 * n + 4096 ≤ 2 ^ 32
  fits : align (8 * n) 4096 ≤ bmSizeSect dev.size * 512

variable {n : Nat} {tokens : List Token} {ps : List (Piece Nat)}

theorem DumpOf.spelled (h : DumpOf dev cfg hs n tokens ps) : ∃ m, n ≤ m ∧ align (8 * m) hs ≤ align (8 * n) hs ∧
    spell ps = (List.range m).map (bmWord dev (bmStart cfg.md dev.size)) ∧ (spell ps).length < 2 ^ 31 := by
  obtain ⟨m, hnm, hm, hspell⟩ := h.printed
  have hread := h.area.wordsRead_mul
  have hsmall := h.small
  rw [Nat.mul_comm n 8] at hread
  have hle : align (8 * m) hs ≤ align (8 * n) hs ∧ m < 2 ^ 31 := by
    have h8 : 8 * m ≤ align (8 * n) hs := by omega
    unfold align at *
    rcases h.area.sector with rfl | rfl | rfl | rfl <;> omega
  exact ⟨m, hnm, hle.1, hspell, by rw [hspell, List.length_map, List.length_range]; exact hle.2⟩

theorem exp_cons (t : Token) (ts : List Token) : exp t (t :: ts) = some ((), ts) := by
  have hsame : exp t (t :: ts) = (if t = t then (pure () : Reader Token Unit) else failure) ts := rfl
  rw [hsame, if_pos rfl]
  rfl

theorem withOffsets_bmBytesPerBit (size : Nat) (md : MdCpu) :
    (withOffsets size md).bmBytesPerBit = md.bmBytesPerBit := by
  cases md
  rfl

theorem parsedMd_bmBytesPerBit (md0 md : MdCpu) : (parsedMd md0 md).bmBytesPerBit = md.bmBytesPerBit := by
  cases md
  rfl

theorem reInitializeMdOffsets_some {c : Format} (hle : ¬ bmSizeSect c.bdSize > mdBmMaxSectFlex) :
    reInitializeMdOffsets c = some (Format.setOffsets { c with md := withOffsets c.bdSize c.md }) := by
  unfold reInitializeMdOffsets
  rw [if_neg hle]
  rfl

theorem startOfBm_some {c : Format} (hzero : c.bdSize = 0) :
    ∃ cfg1, startOfBm .default c = some cfg1 ∧ cfg1.md.bmBytesPerBit = c.md.bmBytesPerBit := by
  have hle : ¬ bmSizeSect c.bdSize > mdBmMaxSectFlex := by rw [hzero]; decide
  by_cases hs : StripeOption.default.alStripes ≠ c.md.alStripes ∨
      StripeOption.default.alStripeSize4k ≠ c.md.alStripeSize4k
  · exact ⟨_, (if_pos hs).trans (reInitializeMdOffsets_some hle), withOffsets_bmBytesPerBit c.bdSize c.md⟩
  · exact ⟨_, if_neg hs, rfl⟩

theorem clipLaSect_bmBytesPerBit (c : Format) : (clipLaSect c).md.bmBytesPerBit = c.md.bmBytesPerBit := by
  obtain ⟨_, _, _, _, _, md, _⟩ := c
  cases md
  rfl

theorem bmBytes_some {c : Format} (h : c.md.bmBytesPerBit = 4096) : ∃ b, c.bmBytes = some b := by
  unfold Format.bmBytes bmWords
  rw [h, show unsigned 64 (Int.tdiv (signed 32 (4096 : Nat)) 512) = 8 by decide]
  exact ⟨_, rfl⟩

/-- The steps of the tool that only parses. -/
theorem metaVerifyDumpFile_of {c : Format} {b : Nat} {ts : List Token}
    (hsb : parseSuperBlock .default .zero tokens = some (c, .lbrace :: ts)) (hb : c.bmBytes = some b)
    (hwords : ∀ w, parseWords true 0 ts w = some (.rest [] w)) : metaVerifyDumpFile .default tokens = some () := by
  obtain ⟨last, hlast, hsteps⟩ : ∃ last : Parsed → Option Unit, (∀ w, last (.rest [] w) = some ()) ∧
      metaVerifyDumpFile .default tokens = (parseSuperBlock .default .zero tokens).bind fun p =>
        p.1.bmBytes.bind fun _ => (exp .lbrace p.2).bind fun q =>
          (parseWords true 0 q.2 ⟨⟨0, fun _ => 0, by decide⟩, 0, fun _ => 0, 0⟩).bind last := by
    refine ⟨_, ?_, rfl⟩
    exact fun _ => rfl
  rw [hsteps, hsb, Option.bind_some, hb, Option.bind_some, exp_cons, Option.bind_some, hwords, Option.bind_some, hlast]

/-- The tool that only parses is content with the dump. -/
theorem DumpOf.verify (h : DumpOf dev cfg hs n tokens ps) (ho : Opened dev cfg) (hd : Dumpable cfg.md dev.size) :
    metaVerifyDumpFile .default tokens = some () := by
  obtain ⟨m, -, -, -, hlen⟩ := h.spelled
  have hparse : parseHeader Format.zero.md tokens =
      some (parsedMd Format.zero.md cfg.md, .lbrace :: (ps.flatMap pieceTokens ++ [.rbrace])) := by
    rw [h.tokens]
    exact parseHeader_dumped ho.inRange hd.peerMaxBioSize (Nat.lt_of_le_of_lt hd.laSect (by decide)) _
  have hbpb := (parsedMd_bmBytesPerBit Format.zero.md cfg.md).trans hd.bytesPerBit
  generalize parsedMd Format.zero.md cfg.md = md at hparse hbpb
  obtain ⟨cfg1, hcfg1, hmd⟩ := startOfBm_some (c := { Format.zero with md := md }) rfl
  obtain ⟨b, hb⟩ := bmBytes_some ((clipLaSect_bmBytesPerBit cfg1).trans (hmd.trans hbpb))
  have hsb : parseSuperBlock .default .zero tokens =
      some (clipLaSect cfg1, .lbrace :: (ps.flatMap pieceTokens ++ [.rbrace])) := by
    unfold parseSuperBlock
    simp only [hparse, Option.bind_eq_bind, Option.bind_some, hcfg1]
  exact metaVerifyDumpFile_of hsb hb fun w => parseWords_parseOnly hlen []

/-! ## The restore -/

theorem beNat_congr {f g : Nat → UInt8} {off k : Nat} (h : ∀ i, off ≤ i → i < off + k → f i = g i) :
    beNat f off k = beNat g off k := by
  induction k with
  | zero => rfl
  | succ k ih => rw [beNat, beNat, ih fun i h1 h2 => h i h1 (by omega), h (off + k) (by omega) (by omega)]

/-- The super block is in the first bytes. -/
theorem mdDisk08ToCpu_congr {f g : Nat → UInt8} (h : ∀ i < 96, f i = g i) : mdDisk08ToCpu f = mdDisk08ToCpu g := by
  have hb : ∀ off k, off + k ≤ 96 → beNat f off k = beNat g off k :=
    fun off k hle => beNat_congr fun i _ hi => h i (by omega)
  have huuid : ∀ i : Fin 4, beNat f (8 + 8 * i) 8 = beNat g (8 + 8 * i) 8 := fun i => hb _ _ (by omega)
  unfold mdDisk08ToCpu
  simp only [huuid, hb 0 8 (by decide), hb 40 8 (by decide), hb 56 4 (by decide), hb 60 4 (by decide),
    hb 64 4 (by decide), hb 68 4 (by decide), hb 72 4 (by decide), hb 76 4 (by decide), hb 80 4 (by decide),
    hb 84 4 (by decide), hb 88 4 (by decide), hb 92 4 (by decide)]

/-- The device with the bitmap of the pieces. -/
def withBitmap (dev' : Device) (off : Int) (count : Nat) (buf : Nat → UInt8) : Device :=
  { dev' with byte := blit dev'.byte off.toNat count buf }

/-- The bytes after the restore: the bitmap first, the super block last. -/
theorem DumpOf.restored (h : DumpOf dev cfg hs n tokens ps) (ho : Opened dev cfg) (hd : Dumpable cfg.md dev.size)
    {m : Nat} (hnm : n ≤ m) (hfit : align (8 * m) hs ≤ bmSizeSect dev.size * 512)
    (hoff : (cfg.bmOffset : Int) = bmStart cfg.md dev.size) {restored : Device}
    (hrestored : restored = { withBitmap dev' (bmStart cfg.md dev.size) (align (8 * m) hs)
        (paddedBytes (bmWord dev (bmStart cfg.md dev.size)) m) with
      byte := blit (withBitmap dev' (bmStart cfg.md dev.size) (align (8 * m) hs)
        (paddedBytes (bmWord dev (bmStart cfg.md dev.size)) m)).byte (mdGetByteOffset dev.size) 4096
          (mdCpuToDisk08 (restoredMd cfg.md)) }) :
    Restored cfg dev dev' restored := by
  have hal := hd.alSize.1
  have hbelow : cfg.bmOffset + bmSizeSect dev.size * 512 ≤ mdGetByteOffset dev.size := by
    unfold bmStart alStart at hoff
    generalize alSizeSect cfg.md = a at *
    generalize bmSizeSect dev.size = b at *
    generalize mdGetByteOffset dev.size = g at *
    omega
  have h8 : 8 * m ≤ align (8 * m) hs :=
    align_le _ (by rcases h.area.sector with rfl | rfl | rfl | rfl <;> decide)
  rw [← hoff] at hrestored
  generalize hbuf : paddedBytes (bmWord dev cfg.bmOffset) m = buf at hrestored
  generalize align (8 * m) hs = count at *
  subst hrestored
  refine ⟨rfl, ?_, ?_, ?_⟩
  · have hset : ¬ ((restoredMd cfg.md).alStripes = 0 ∧ (restoredMd cfg.md).alStripeSize4k = 0) := ho.set
    have hrange : (restoredMd cfg.md).InRange := { ho.inRange with alNrExtents := (by decide : 257 < 2 ^ 32) }
    conv_rhs => rw [← mdDisk08ToCpu_mdCpuToDisk08 hrange hset]
    refine mdDisk08ToCpu_congr fun i hi => ?_
    dsimp only [blit]
    rw [if_pos (by omega)]
    congr 1
    omega
  · intro bmBytes hbytes x hx
    rw [h.bmBytes, Option.some_inj] at hbytes
    have hlt : x < 8 * m := by omega
    dsimp only [blit, withBitmap]
    rw [Int.toNat_natCast, if_neg (by omega), if_pos (by omega), ← hbuf]
    have hsame : paddedBytes (bmWord dev cfg.bmOffset) m x = bytesOf (bmWord dev cfg.bmOffset) x :=
      bytesOf_congr (m := m) (fun j hj => if_pos hj) hlt
    rw [Nat.add_sub_cancel_left, hsame]
    unfold bmWord
    rw [bytesOf_wordsOf, Int.toNat_natCast]
  · intro x hbm hmd
    dsimp only [blit, withBitmap]
    rw [if_neg hmd, Int.toNat_natCast, if_neg (by omega)]

theorem IsValidMd.restored {md : MdCpu} {size : Nat} (h : IsValidMd md size) : IsValidMd (restoredMd md) size := by
  cases md
  exact h

def freshMd : MdCpu := { MdCpu.zero with
  laSect := 98304
  magic := mdMagic08
  mdSizeSect := 80
  alOffset := -64
  alNrExtents := 1237
  bmOffset := -72
  bmBytesPerBit := 4096
  alStripes := 1
  alStripeSize4k := 8 }

theorem fresh_size_lt : 2 ^ 26 < 2 ^ 63 := by decide

def fresh : Device where
  size := 2 ^ 26
  byte := blit (fun x => if x = mdGetByteOffset (2 ^ 26) - 72 * 512 then 3 else 0) (mdGetByteOffset (2 ^ 26)) 4096
    (mdCpuToDisk08 freshMd)
  size_lt := fresh_size_lt

end Drbd.Meta
