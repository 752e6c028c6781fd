import Drbd.ApplyAl.Defs

/-!
# The bitmap after `apply_al`

What counts is the device as it will be once the buffer is written out. Writing out and reading the next
chunk do not change that; setting an extent changes it by that extent.
-/

namespace Drbd.ApplyAl

open Lib

variable {bmBytes off bmPos i x : Nat} {c c' : Chunk} {hotExtent : List Nat} {cfg : Format}
  {dev dev' onDiskBuffer : Nat → UInt8}

/-- The device once the buffer is written out. -/
def Chunk.settled (c : Chunk) (off : Nat) : Nat → UInt8 :=
  blit c.dev (off + c.bmOnDiskPos) c.chunk c.onDiskBuffer

theorem settled_of_empty (h : c.chunk = 0) : c.settled off = c.dev := by
  funext x
  unfold Chunk.settled blit
  rw [h, if_neg (by omega)]

theorem settled_pread (c : Chunk) (off : Nat) : (c.pread off).settled off = c.dev := by
  funext x
  unfold Chunk.settled Chunk.pread blit
  dsimp only
  split
  · rw [if_pos (by omega)]
    exact congrArg c.dev (by omega)
  · rfl

theorem settled_seek (h : i = 0 → c.chunk = 0) :
    (((if i = 0 then c else c.pwrite off).seek bmBytes bmPos).pread off).settled off = c.settled off := by
  rw [settled_pread]
  split
  · exact (settled_of_empty (h ‹_›)).symm
  · rfl

/-- An extent within the chunk is set, and nothing else. -/
theorem setExtent_some (hpos : c.bmOnDiskPos ≤ bmPos) (hchunk : bmPos + BM_BYTES_PER_AL_EXT ≤ c.bmOnDiskPos + c.chunk)
    (h8 : bmPos % 8 = 0) (hpos8 : c.bmOnDiskPos % 8 = 0) (hsize : c.chunk < 2 ^ 64) :
    ∃ c', c.setExtent bmPos = some c' ∧ c'.bmOnDiskPos = c.bmOnDiskPos ∧ c'.chunk = c.chunk ∧
      ∀ x, c'.settled off x =
        if off + bmPos ≤ x ∧ x < off + bmPos + BM_BYTES_PER_AL_EXT then 0xff else c.settled off x := by
  unfold BM_BYTES_PER_AL_EXT at *
  have hoff : unsigned 64 ((bmPos : Int) - c.bmOnDiskPos) = bmPos - c.bmOnDiskPos := by
    have hu := @unsigned_eq_self 64 ((bmPos : Int) - c.bmOnDiskPos) (by omega) (by omega)
    omega
  have hlast : unsigned 64 ((c.chunk : Int) - (2 ^ (22 - 12 - 3) : Nat)) = c.chunk - 2 ^ (22 - 12 - 3) := by
    have hu := @unsigned_eq_self 64 ((c.chunk : Int) - (2 ^ (22 - 12 - 3) : Nat)) (by omega) (by omega)
    omega
  refine ⟨{ c with onDiskBuffer := blit c.onDiskBuffer (bmPos - c.bmOnDiskPos) (2 ^ (22 - 12 - 3)) fun _ => 0xff },
    ?_, rfl, rfl, fun x => ?_⟩
  · unfold Chunk.setExtent BM_BYTES_PER_AL_EXT
    dsimp only
    rw [hoff, hlast, if_neg (by omega), if_neg (by omega), if_neg (by omega)]
  · unfold Chunk.settled blit
    dsimp only
    by_cases hin : off + bmPos ≤ x ∧ x < off + bmPos + 2 ^ (22 - 12 - 3)
    · rw [if_pos hin, if_pos (by omega), if_pos (by omega)]
    · rw [if_neg hin]
      split
      · rw [if_neg (by omega)]
      · rfl

/-- The chunk that is read for an extent holds it. -/
theorem seek_holds (c : Chunk) (hin : bmPos < bmBytes) (hb : bmBytes % 512 = 0)
    (h128 : bmPos % BM_BYTES_PER_AL_EXT = 0) :
    (c.seek bmBytes bmPos).bmOnDiskPos ≤ bmPos ∧
    bmPos + BM_BYTES_PER_AL_EXT ≤ (c.seek bmBytes bmPos).bmOnDiskPos + (c.seek bmBytes bmPos).chunk ∧
    (c.seek bmBytes bmPos).bmOnDiskPos % 8 = 0 ∧ (c.seek bmBytes bmPos).chunk < 2 ^ 64 := by
  unfold BM_BYTES_PER_AL_EXT at *
  unfold Chunk.seek Meta.bufferSize
  dsimp only
  omega

theorem hotByte_cons {e : Nat} {rest : List Nat} : HotByte bmBytes (e :: rest) x ↔
    (e ≠ unused ∧ e * BM_BYTES_PER_AL_EXT < bmBytes ∧ e * BM_BYTES_PER_AL_EXT ≤ x ∧
      x < e * BM_BYTES_PER_AL_EXT + BM_BYTES_PER_AL_EXT) ∨ HotByte bmBytes rest x := by
  simp only [HotByte, List.mem_cons, exists_eq_or_imp]

/-- After the first unused slot there are only unused slots. -/
theorem not_hotByte_of_unused {rest : List Nat} (h : (unused :: rest).Pairwise (· ≤ ·)) (hle : ∀ e ∈ rest, e ≤ unused) :
    ¬ HotByte bmBytes (unused :: rest) x := by
  rintro ⟨e, he, hne, _⟩
  rcases List.mem_cons.1 he with rfl | he
  · exact hne rfl
  · exact hne (Nat.le_antisymm (hle e he) ((List.pairwise_cons.1 h).1 e he))

/-- What the loop relies on, before each of its turns. -/
structure Ready (i : Nat) (c : Chunk) (rest : List Nat) : Prop where
  ascending : rest.Pairwise (· ≤ ·)
  range : ∀ e ∈ rest, e ≤ unused
  first : i = 0 → c.chunk = 0
  behind : ∀ e ∈ rest, c.bmOnDiskPos ≤ e * BM_BYTES_PER_AL_EXT
  aligned : c.bmOnDiskPos % 8 = 0
  size : c.chunk < 2 ^ 64

theorem Ready.next {e : Nat} {rest : List Nat} (h : Ready i c (e :: rest)) : Ready (i + 1) c rest where
  ascending := (List.pairwise_cons.1 h.ascending).2
  range e' he' := h.range e' (List.mem_cons_of_mem e he')
  first hi := absurd hi (Nat.succ_ne_zero i)
  behind e' he' := h.behind e' (List.mem_cons_of_mem e he')
  aligned := h.aligned
  size := h.size

/-- The rest of the loop sets the extents that are left. -/
theorem applyExtents_spec (hb : bmBytes % 512 = 0) (h : Ready i c hotExtent) :
    ∃ i' c', applyExtents bmBytes off i c hotExtent = some (i', c') ∧ (i' = 0 → c'.chunk = 0) ∧
      ∀ x, c'.settled off x =
        if off ≤ x ∧ HotByte bmBytes hotExtent (x - off) then 0xff else c.settled off x := by
  induction hotExtent generalizing i c with
  | nil =>
      refine ⟨i, c, rfl, h.first, fun x => ?_⟩
      rw [if_neg (by simp [HotByte])]
  | cons e rest ih =>
      rw [applyExtents]
      by_cases hunused : e = unused
      · rw [if_pos hunused]
        subst hunused
        refine ⟨i, c, rfl, h.first, fun x => ?_⟩
        rw [if_neg fun hx => not_hotByte_of_unused h.ascending (fun e he => h.range e (List.mem_cons_of_mem _ he)) hx.2]
      rw [if_neg hunused]
      dsimp only
      generalize hbmPos : e * BM_BYTES_PER_AL_EXT = bmPos
      by_cases hend : bmBytes ≤ bmPos
      · obtain ⟨i', c', hrun, hfirst, hset⟩ := ih h.next
        rw [if_pos hend]
        refine ⟨i', c', hrun, hfirst, fun x => ?_⟩
        rw [hset x]
        refine if_congr (and_congr_right fun _ => ?_) rfl rfl
        rw [hotByte_cons, hbmPos]
        exact ⟨.inr, fun hx => hx.resolve_left fun hx => Nat.not_lt.2 hend hx.2.1⟩
      · rw [if_neg hend]
        -- the chunk that holds the extent, read in if need be
        generalize hload : (if i = 0 ∨ c.bmOnDiskPos + c.chunk ≤ bmPos + BM_BYTES_PER_AL_EXT then
          ((if i = 0 then c else c.pwrite off).seek bmBytes bmPos).pread off else c) = loaded
        have hloaded : loaded.settled off = c.settled off ∧ loaded.bmOnDiskPos ≤ bmPos ∧
            bmPos + BM_BYTES_PER_AL_EXT ≤ loaded.bmOnDiskPos + loaded.chunk ∧ loaded.bmOnDiskPos % 8 = 0 ∧
            loaded.chunk < 2 ^ 64 := by
          split at hload
          · subst hload
            refine ⟨settled_seek h.first, ?_⟩
            exact seek_holds (if i = 0 then c else c.pwrite off) (Nat.not_le.1 hend) hb
              (by rw [← hbmPos, Nat.mul_mod_left])
          · rename_i hkeep
            subst hload
            have hbehind := h.behind e List.mem_cons_self
            rw [hbmPos] at hbehind
            exact ⟨rfl, hbehind, by omega, h.aligned, h.size⟩
        obtain ⟨hsame, hle, hholds, haligned, hsize⟩ := hloaded
        have h8 : bmPos % 8 = 0 := by
          unfold BM_BYTES_PER_AL_EXT at hbmPos
          omega
        obtain ⟨marked, hmarked, hpos, hchunk, hset⟩ := @setExtent_some off bmPos loaded hle hholds h8 haligned hsize
        rw [hmarked]
        have hready : Ready (i + 1) marked rest := by
          refine ⟨(List.pairwise_cons.1 h.ascending).2, fun e' he' => h.range e' (List.mem_cons_of_mem e he'),
            fun hi => absurd hi (Nat.succ_ne_zero i), fun e' he' => ?_, by rw [hpos]; exact haligned,
            by rw [hchunk]; exact hsize⟩
          have hasc := (List.pairwise_cons.1 h.ascending).1 e' he'
          rw [hpos]
          exact Nat.le_trans hle (hbmPos ▸ Nat.mul_le_mul_right _ hasc)
        obtain ⟨i', c', hrun, hfirst, hrest⟩ := ih hready
        refine ⟨i', c', hrun, hfirst, fun x => ?_⟩
        rw [hrest x, hset x, hsame]
        by_cases hhere : off + bmPos ≤ x ∧ x < off + bmPos + BM_BYTES_PER_AL_EXT
        · have hhot : HotByte bmBytes (e :: rest) (x - off) :=
            ⟨e, List.mem_cons_self, hunused, by omega, by omega, by omega⟩
          rw [if_pos hhere, ite_self, if_pos ⟨by omega, hhot⟩]
        · rw [if_neg hhere]
          refine if_congr (and_congr_right fun hx => ?_) rfl rfl
          rw [hotByte_cons, hbmPos]
          exact ⟨.inr, fun hx' => hx'.resolve_left fun hx' => hhere ⟨by omega, by omega⟩⟩

/-! ## The whole of it -/

/-- A sorted array: the unused slots are last. -/
structure Sorted (hotExtent : List Nat) : Prop where
  ascending : hotExtent.Pairwise (· ≤ ·)
  range : ∀ e ∈ hotExtent, e ≤ unused

theorem align_mod (x : Nat) (cfg : Format) : align x cfg.mdHardSectSize % 512 = 0 := by
  unfold align Format.mdHardSectSize
  rw [Nat.mul_left_comm, Nat.mul_mod_right]

/-- What `apply_al` does for the size it computes. -/
theorem applyAl_spec (h : Sorted hotExtent) :
    ∃ dev', applyAl cfg dev onDiskBuffer hotExtent = some dev' ∧ ∀ x, dev' x =
      if cfg.bmOffset ≤ x ∧ HotByte (align cfg.bmBytes cfg.mdHardSectSize) hotExtent (x - cfg.bmOffset) then 0xff
      else dev x := by
  have hready : Ready 0 ⟨dev, onDiskBuffer, 0, 0⟩ hotExtent :=
    ⟨h.ascending, h.range, fun _ => rfl, fun _ _ => Nat.zero_le _, rfl, by dsimp only; omega⟩
  obtain ⟨i', c', hrun, hfirst, hset⟩ :=
    @applyExtents_spec (align cfg.bmBytes cfg.mdHardSectSize) cfg.bmOffset 0 _ hotExtent (align_mod _ cfg) hready
  refine ⟨c'.settled cfg.bmOffset, ?_, fun x => ?_⟩
  · rw [applyAl, hrun, Option.map_some, Option.some.injEq]
    dsimp only
    split
    · exact (settled_of_empty (hfirst ‹_›)).symm
    · rfl
  · rw [hset x, settled_of_empty rfl]

theorem align_eq (h : cfg.bmBytes + cfg.mdHardSectSize ≤ 2 ^ 32) :
    align cfg.bmBytes cfg.mdHardSectSize = cfg.alignedBytes := by
  have hpos : 0 < cfg.mdHardSectSize := Nat.mul_pos (by decide) (Nat.two_pow_pos _)
  unfold align Format.alignedBytes
  rw [Nat.mod_eq_of_lt (by omega)]

/-- Rounding up past the end of the 32 bits leaves no bitmap at all. -/
theorem align_wrapped (hb : cfg.bmBytes < 2 ^ 32) (h : 2 ^ 32 < cfg.bmBytes + cfg.mdHardSectSize) :
    align cfg.bmBytes cfg.mdHardSectSize = 0 := by
  have hpos : 0 < cfg.mdHardSectSize := Nat.mul_pos (by decide) (Nat.two_pow_pos _)
  unfold align
  rw [Nat.div_eq_of_lt, Nat.zero_mul]
  rcases Nat.lt_or_ge cfg.mdHardSectSize (2 ^ 32) with hlt | hge
  · omega
  · exact Nat.lt_of_lt_of_le (Nat.mod_lt _ (by decide)) hge

theorem or_allOnes (b : UInt8) : b ||| 0xff = 0xff := by
  refine UInt8.toBitVec_inj.1 ?_
  exact BitVec.or_allOnes

/-- `apply_al` sets the hot extents, with no `ASSERT` tripped and within the chunk, exactly when the size of
the bitmap can be rounded up in 32 bits, or there is nothing left to set. -/
theorem apply_al_iff {cfg : Format} {hotExtent : List Nat} (hb : cfg.bmBytes < 2 ^ 32) (h : Sorted hotExtent)
    (dev onDiskBuffer : Nat → UInt8) :
    (∃ dev', applyAl cfg dev onDiskBuffer hotExtent = some dev' ∧ Applied cfg hotExtent dev dev') ↔
      cfg.bmBytes + cfg.mdHardSectSize ≤ 2 ^ 32 ∨
        ∀ x, HotByte cfg.alignedBytes hotExtent x → dev (cfg.bmOffset + x) = 0xff := by
  obtain ⟨dev', hrun, hset⟩ := @applyAl_spec hotExtent cfg dev onDiskBuffer h
  rw [hrun]
  rcases Nat.lt_or_ge (2 ^ 32) (cfg.bmBytes + cfg.mdHardSectSize) with hwrap | hfits
  · rw [align_wrapped hb hwrap] at hset
    have hsame : ∀ x, dev' x = dev x := fun x => by
      rw [hset x, if_neg (by simp [HotByte])]
    constructor
    · rintro ⟨_, hd, happlied⟩
      obtain rfl := Option.some.inj hd
      refine .inr fun x hx => ?_
      have hbyte := happlied (cfg.bmOffset + x)
      rw [hsame, Nat.add_sub_cancel_left, if_pos ⟨Nat.le_add_right _ _, hx⟩, or_allOnes] at hbyte
      exact hbyte
    · rintro (hfits | hall)
      · omega
      · refine ⟨dev', rfl, fun x => ?_⟩
        rw [hsame]
        split
        · rename_i hx
          have hff := hall _ hx.2
          rw [Nat.add_sub_cancel' hx.1] at hff
          rw [or_allOnes, hff]
        · rfl
  · rw [align_eq hfits] at hset
    refine ⟨fun _ => .inl hfits, fun _ => ⟨dev', rfl, fun x => ?_⟩⟩
    rw [hset x, or_allOnes]

/-- 32 MB of disk with one hot extent. -/
theorem apply_al_iff_small : ∃ dev', applyAl ⟨1024, 0, 4096⟩ (fun _ => 1) (fun _ => 0) [3, unused] = some dev' ∧
    Applied ⟨1024, 0, 4096⟩ [3, unused] (fun _ => 1) dev' :=
  (apply_al_iff (by decide) ⟨by decide, by decide⟩ _ _).2 (.inl (by decide))

/-- A bitmap of 8 bytes less than 4 GB, for a device of just under 128 TB. -/
def almost4G : Format := ⟨2 ^ 32 - 8, 0, 4096⟩

/-- Its first extent is hot, and stays in sync. -/
theorem apply_al_skips : Sorted [0, unused] ∧
    ¬ ∃ dev', applyAl almost4G (fun _ => 0) (fun _ => 0) [0, unused] = some dev' ∧
      Applied almost4G [0, unused] (fun _ => 0) dev' := by
  refine ⟨⟨by decide, by decide⟩, ?_⟩
  rintro ⟨dev', hrun, happlied⟩
  have hzero : dev' 4096 = 0 := by
    cases hrun
    decide
  have hhot : HotByte almost4G.alignedBytes [0, unused] (4096 - 4096) := by decide
  have hbyte := happlied 4096
  rw [if_pos ⟨Nat.le_refl _, hhot⟩, hzero] at hbyte
  exact absurd hbyte (by decide)

end Drbd.ApplyAl
