import Drbd.ApplyAl.HotExtents
import Drbd.ApplyAl.Replay
import Drbd.Layout.Drbdmeta
import Drbd.Lib.Faults
import Drbd.Lib.Ring
import Mathlib.Data.List.Sort

/-!
# When `apply-al` stays in bounds

The old format fits 64 sectors, the 8.4 format the 8192 blocks of `on_disk_buffer`. The super block decides
which of them is read, and how far.
-/

namespace Drbd.ApplyAl

open Lib ActLog

variable {hot : Nat → Nat} {slot extent mx b : Nat} {alDisk dev onDiskBuffer : Nat → UInt8} {md : Meta.MdCpu}
  {crc32c : (Nat → UInt8) → Nat} {cfg : Cfg} {s : Scan}

/-! ## The hot extents -/

/-- All of them are numbers of 32 bits. -/
def Words (hot : Nat → Nat) : Prop := ∀ x, hot x ≤ unused

theorem words_unused : Words fun _ => unused := fun _ => Nat.le_refl _

theorem beNat_word (f : Nat → UInt8) (off : Nat) : beNat f off 4 ≤ unused := by
  have h := beNat_lt f off 4
  rw [show 256 ^ 4 = 2 ^ 32 by decide] at h
  exact Nat.le_sub_one_of_lt h

theorem setHotExtent_some (hhot : Words hot) (hextent : extent ≤ unused) :
    ∃ hot', setHotExtent hot slot extent = some hot' ∧ Words hot' := by
  unfold setHotExtent
  split
  · exact ⟨hot, rfl, hhot⟩
  · rw [if_pos (Nat.not_le.1 ‹_›)]
    refine ⟨_, rfl, fun x => ?_⟩
    rcases eq_or_ne x slot with rfl | hne
    · rw [Function.update_self]
      exact hextent
    · rw [Function.update_of_ne hne]
      exact hhot x

theorem sorted_sorted (hhot : Words hot) : Sorted (sorted hot) where
  ascending := by
    have h := @List.pairwise_mergeSort Nat (fun a b => decide (a ≤ b)) (by simpa using fun a b c => Nat.le_trans)
      (by simpa using Nat.le_total) ((List.range AL_EXTENTS_MAX).map hot)
    unfold sorted
    simpa using h
  range e he := by
    rw [sorted, List.mem_mergeSort, List.mem_map] at he
    obtain ⟨x, _, rfl⟩ := he
    exact hhot x

/-! ## The old format -/

/-- The first loop gets through 64 sectors and no more. -/
theorem scan07 (alDisk : Nat → UInt8) (mx : Nat) {st : (Nat → AlSector) × Scan} (hst : ∀ b, Words (st.1 b).extent) :
    (mx ≤ MD_AL_MAX_SECT_07 ∧
      ∃ st', (List.range mx).foldlM (scanSector alDisk) st = some st' ∧ ∀ b, Words (st'.1 b).extent) ∨
    (MD_AL_MAX_SECT_07 < mx ∧ (List.range mx).foldlM (scanSector alDisk) st = none) := by
  have hyes : ∀ (st : (Nat → AlSector) × Scan) (b : Nat), (∀ b, Words (st.1 b).extent) → b < MD_AL_MAX_SECT_07 →
      ∃ st', scanSector alDisk st b = some st' ∧ ∀ b, Words (st'.1 b).extent := by
    intro st b hst hb
    unfold scanSector
    rw [if_pos ⟨hb, by unfold MD_AL_MAX_SECT_07 at hb; unfold Meta.bufferSize; omega⟩]
    refine ⟨_, rfl, fun x => ?_⟩
    dsimp only
    rcases eq_or_ne x b with rfl | hne
    · rw [Function.update_self]
      exact fun i => beNat_word _ _
    · rw [Function.update_of_ne hne]
      exact hst x
  have hno : ∀ (st : (Nat → AlSector) × Scan) (b : Nat), (∀ b, Words (st.1 b).extent) → ¬ b < MD_AL_MAX_SECT_07 →
      scanSector alDisk st b = none := by
    intro st b _ hb
    unfold scanSector
    rw [if_neg fun h => hb h.1]
  rcases foldlM_checked hyes hno (List.range mx) hst with ⟨hall, hsome⟩ | ⟨⟨b, hb, hbad⟩, hnone⟩
  · refine .inl ⟨Nat.not_lt.1 fun hlt => ?_, hsome⟩
    exact absurd (hall MD_AL_MAX_SECT_07 (List.mem_range.2 hlt)) (Nat.lt_irrefl _)
  · exact .inr ⟨Nat.lt_of_le_of_lt (Nat.not_lt.1 hbad) (List.mem_range.1 hb), hnone⟩

theorem replaySector_some {alCpu : Nat → AlSector} (hcpu : ∀ b, Words (alCpu b).extent) (hmx : 0 < mx)
    (hle : mx ≤ MD_AL_MAX_SECT_07) (hhot : Words hot) (b : Nat) :
    ∃ hot', replaySector mx alCpu hot b = some hot' ∧ Words hot' := by
  have hlt := Nat.mod_lt b hmx
  unfold replaySector
  rw [if_neg (by omega)]
  split
  · exact ⟨hot, rfl, hhot⟩
  · refine foldlM_total (fun hot i hhot => ?_) _ hhot
    unfold replaySectorUpdate
    split
    · exact ⟨hot, rfl, hhot⟩
    · exact setHotExtent_some hhot (hcpu _ i)

theorem replayAl07_spec (alNrExtents : Nat) (alDisk : Nat → UInt8) :
    (sectors07 alNrExtents ≤ MD_AL_MAX_SECT_07 ∧
      ∃ found hot, replayAl07 alNrExtents alDisk = some (found, hot) ∧ Words hot) ∨
    (MD_AL_MAX_SECT_07 < sectors07 alNrExtents ∧ replayAl07 alNrExtents alDisk = none) := by
  have hpos : 0 < sectors07 alNrExtents := Nat.add_pos_left Nat.one_pos _
  have hst : ∀ b : Nat, Words (((fun _ => noSector : Nat → AlSector), (⟨0, 0, ⟨0, 0⟩, ⟨0, 0⟩⟩ : Scan)).1 b).extent :=
    fun _ _ => Nat.zero_le _
  unfold replayAl07
  generalize sectors07 alNrExtents = mx at hpos ⊢
  unfold replaySectors
  rcases scan07 alDisk mx hst with ⟨hle, st, hrun, hcpu⟩ | ⟨hlt, hrun⟩
  · refine .inl ⟨hle, ?_⟩
    rw [hrun, Option.bind_some]
    dsimp only
    split
    · exact ⟨0, _, rfl, words_unused⟩
    · obtain ⟨hot, hwalk, hhot⟩ :=
        foldlM_total (fun hot b hhot => replaySector_some hcpu hpos hle hhot b) (walk st.2 mx) words_unused
      exact ⟨st.2.foundValid, hot, by rw [hwalk, Option.map_some], hhot⟩
  · exact .inr ⟨hlt, by rw [hrun, Option.bind_none]⟩

theorem sectors07_le {alNrExtents : Nat} (h : alNrExtents < 2 ^ 32) :
    sectors07 alNrExtents ≤ MD_AL_MAX_SECT_07 ↔ alNrExtents ≤ 3843 ∨ 2 ^ 32 - 60 ≤ alNrExtents := by
  unfold sectors07 AL_EXTENTS_PT MD_AL_MAX_SECT_07
  omega

/-! ## The 8.4 format -/

/-- The blocks of the activity log are 8192 at most; or else their product wraps around, and what is left of it
ends before the second stripe gets there. -/
def BlocksFit (md : Meta.MdCpu) : Prop :=
  md.alStripes * md.alStripeSize4k ≤ 8192 ∨
    (2 ^ 32 ≤ md.alStripes * md.alStripeSize4k ∧ (blocks84 md - 1) * md.alStripeSize4k < 8192)

instance (md : Meta.MdCpu) : Decidable (BlocksFit md) := inferInstanceAs (Decidable (_ ∨ _))

/-- A block that can be looked up, and is in the buffer. -/
def SlotFits (md : Meta.MdCpu) (mx b : Nat) : Prop := ∃ o, alTrNumberToOnDiskSlot md b mx = some o ∧ o < 8192

theorem stripes_pos (h : 0 < blocks84 md) : 0 < md.alStripes := by
  rcases Nat.eq_zero_or_pos md.alStripes with h0 | hpos
  · rw [blocks84, h0, Nat.zero_mul] at h
    exact absurd h (by decide)
  · exact hpos

theorem slotFits_iff (hb : b < blocks84 md) : SlotFits md (blocks84 md) b ↔
    (b % md.alStripes * md.alStripeSize4k + b / md.alStripes) % 2 ^ 32 < 8192 := by
  have hpos : 0 < blocks84 md := Nat.lt_of_le_of_lt (Nat.zero_le b) hb
  have hstripes := stripes_pos hpos
  unfold SlotFits alTrNumberToOnDiskSlot
  rw [if_neg (by omega), Nat.mod_eq_of_lt hb]
  simp

/-- When the product wraps around, the transactions that are looked at are all on the first row of the stripes. -/
theorem first_row (hwrap : 2 ^ 32 ≤ md.alStripes * md.alStripeSize4k) (hsize : md.alStripeSize4k < 2 ^ 32) {t : Nat}
    (ht : t = 0 ∨ (t - 1) * md.alStripeSize4k < 8192) : t < md.alStripes := by
  by_contra hge
  have hstripes : 2 ≤ md.alStripes := by
    by_contra hlt
    have : md.alStripes * md.alStripeSize4k ≤ 1 * md.alStripeSize4k := Nat.mul_le_mul_right _ (by omega)
    omega
  rcases ht with rfl | ht
  · omega
  · have h1 : (md.alStripes - 1) * md.alStripeSize4k ≤ (t - 1) * md.alStripeSize4k := Nat.mul_le_mul_right _ (by omega)
    have h2 : 1 * md.alStripeSize4k ≤ (md.alStripes - 1) * md.alStripeSize4k := Nat.mul_le_mul_right _ (by omega)
    have h3 : md.alStripes * md.alStripeSize4k = (md.alStripes - 1) * md.alStripeSize4k + md.alStripeSize4k := by
      rw [← Nat.succ_mul]
      exact congrArg (· * md.alStripeSize4k) (by omega)
    omega

theorem slots_fit_iff (hsize : md.alStripeSize4k < 2 ^ 32) :
    (∀ b < blocks84 md, SlotFits md (blocks84 md) b) ↔ BlocksFit md := by
  constructor
  · intro hall
    by_contra hnot
    unfold BlocksFit at hnot
    push Not at hnot
    obtain ⟨hbig, hrow⟩ := hnot
    rcases Nat.lt_or_ge (md.alStripes * md.alStripeSize4k) (2 ^ 32) with hlt | hwrap
    · -- some transaction has the slot after the buffer
      have hmx : blocks84 md = md.alStripes * md.alStripeSize4k := Nat.mod_eq_of_lt hlt
      obtain ⟨t, ht, hslot⟩ := (stripe_bijOn md.alStripes md.alStripeSize4k).surjOn hbig
      rw [Set.mem_Iio] at ht
      unfold stripe at hslot
      have hfit := (slotFits_iff (hmx ▸ ht)).1 (hall t (hmx ▸ ht))
      rw [hslot] at hfit
      omega
    · -- the first transaction whose stripe starts after the buffer
      have hrow := hrow hwrap
      have hpos : 0 < md.alStripeSize4k := Nat.pos_of_ne_zero fun h0 => by rw [h0] at hbig; omega
      generalize ht : (8191 + md.alStripeSize4k) / md.alStripeSize4k = t
      have hdiv := Nat.div_add_mod (8191 + md.alStripeSize4k) md.alStripeSize4k
      have hmod := Nat.mod_lt (8191 + md.alStripeSize4k) hpos
      rw [ht, Nat.mul_comm] at hdiv
      have htpos : 0 < t := ht ▸ Nat.div_pos (by omega) hpos
      have hpred : (t - 1) * md.alStripeSize4k = t * md.alStripeSize4k - md.alStripeSize4k := by
        rw [Nat.sub_mul, Nat.one_mul]
      have hstripe : t < md.alStripes := first_row hwrap hsize (.inr (by omega))
      have hlt : t < blocks84 md := by
        by_contra hge
        have : (blocks84 md - 1) * md.alStripeSize4k ≤ (t - 1) * md.alStripeSize4k := Nat.mul_le_mul_right _ (by omega)
        omega
      have hfit := (slotFits_iff hlt).1 (hall t hlt)
      rw [Nat.mod_eq_of_lt hstripe, Nat.div_eq_of_lt hstripe, Nat.add_zero] at hfit
      have hsmall : t * md.alStripeSize4k < 2 ^ 32 := by
        rcases Nat.lt_or_ge md.alStripeSize4k 8192 with hlt | hge
        · omega
        · have ht1 : t = 1 := by
            rw [← ht, Nat.div_eq_iff hpos]
            omega
          rw [ht1, Nat.one_mul]
          exact hsize
      rw [Nat.mod_eq_of_lt hsmall] at hfit
      omega
  · rintro (hle | ⟨hwrap, hrow⟩) b hb
    · have hmx : blocks84 md = md.alStripes * md.alStripeSize4k := Nat.mod_eq_of_lt (by omega)
      have hslot := stripe_lt (hmx ▸ hb)
      unfold stripe at hslot
      rw [slotFits_iff hb, Nat.mod_eq_of_lt (by omega)]
      omega
    · have hlast : (b - 1) * md.alStripeSize4k < 8192 :=
        Nat.lt_of_le_of_lt (Nat.mul_le_mul_right _ (by omega)) hrow
      have hstripe : b < md.alStripes := first_row hwrap hsize (.inr hlast)
      have hle : b * md.alStripeSize4k ≤ (blocks84 md - 1) * md.alStripeSize4k := Nat.mul_le_mul_right _ (by omega)
      rw [slotFits_iff hb, Nat.mod_eq_of_lt hstripe, Nat.div_eq_of_lt hstripe, Nat.add_zero,
        Nat.mod_eq_of_lt (by omega)]
      omega

theorem BlocksFit.le (h : BlocksFit md) : blocks84 md ≤ 8192 := by
  rcases h with hle | ⟨hwrap, hrow⟩
  · exact Nat.le_trans (Nat.mod_le _ _) hle
  · have hpos : 0 < md.alStripeSize4k := Nat.pos_of_ne_zero fun h0 => by rw [h0] at hwrap; omega
    have hle : (blocks84 md - 1) * 1 ≤ (blocks84 md - 1) * md.alStripeSize4k := Nat.mul_le_mul_left _ hpos
    omega

/-- The blocks that were read, as numbers of 32 bits. -/
def Pass.Words (p : Pass) : Prop := ∀ b, ApplyAl.Words (p.alCpu b).context ∧ ApplyAl.Words (p.alCpu b).updateExtentNr

theorem pass84 (crc32c : (Nat → UInt8) → Nat) {p : Pass} (hp : p.Words) :
    ((∀ b < blocks84 md, SlotFits md (blocks84 md) b) ∧
      ∃ p', (List.range (blocks84 md)).foldlM (passBlock crc32c md (blocks84 md)) p = some p' ∧ p'.Words) ∨
    ((∃ b < blocks84 md, ¬ SlotFits md (blocks84 md) b) ∧
      (List.range (blocks84 md)).foldlM (passBlock crc32c md (blocks84 md)) p = none) := by
  have hyes : ∀ (p : Pass) (b : Nat), p.Words → (b < blocks84 md ∧ SlotFits md (blocks84 md) b) →
      ∃ p', passBlock crc32c md (blocks84 md) p b = some p' ∧ p'.Words := by
    rintro p b hp ⟨hb, o, ho, hlt⟩
    unfold passBlock
    rw [ho]
    dsimp only
    rw [if_pos ⟨hb, by unfold Meta.bufferSize; omega⟩]
    refine ⟨_, rfl, fun x => ?_⟩
    dsimp only
    rcases eq_or_ne x b with rfl | hne
    · rw [Function.update_self]
      exact ⟨fun i => beNat_word _ _, fun i => beNat_word _ _⟩
    · rw [Function.update_of_ne hne]
      exact hp x
  have hno : ∀ (p : Pass) (b : Nat), p.Words → ¬ (b < blocks84 md ∧ SlotFits md (blocks84 md) b) →
      passBlock crc32c md (blocks84 md) p b = none := by
    intro p b _ hbad
    unfold passBlock
    cases ho : alTrNumberToOnDiskSlot md b (blocks84 md) with
    | none => rfl
    | some o =>
        dsimp only
        rw [if_neg]
        rintro ⟨hb, hlt⟩
        unfold Meta.bufferSize at hlt
        exact hbad ⟨hb, o, ho, by omega⟩
  rcases foldlM_checked hyes hno (List.range (blocks84 md)) hp with ⟨hall, hsome⟩ | ⟨⟨b, hb, hbad⟩, hnone⟩
  · exact .inl ⟨fun b hb => (hall b (List.mem_range.2 hb)).2, hsome⟩
  · have hlt := List.mem_range.1 hb
    exact .inr ⟨⟨b, hlt, fun hfit => hbad ⟨hlt, hfit⟩⟩, hnone⟩

theorem replayBlockAt_some {alCpu : Nat → AlBlock} (hmx : 0 < mx)
    (hcpu : ∀ b, Words (alCpu b).context ∧ Words (alCpu b).updateExtentNr) (hhot : Words hot) (b : Nat) :
    ∃ hot', replayBlockAt mx alCpu hot b = some hot' ∧ Words hot' := by
  have hlt := Nat.mod_lt b hmx
  unfold replayBlockAt
  rw [if_neg (by omega)]
  dsimp only
  split
  · exact ⟨hot, rfl, hhot⟩
  · obtain ⟨hot', hcontext, hhot'⟩ :=
      foldlM_total (f := replayBlockContext (alCpu (b % mx))) (fun hot i hhot => by
        unfold replayBlockContext
        dsimp only
        split
        · exact ⟨hot, rfl, hhot⟩
        · exact setHotExtent_some hhot ((hcpu _).1 i)) (List.range AL_CONTEXT_PER_TRANSACTION) hhot
    rw [hcontext, Option.bind_some]
    refine foldlM_total (fun hot i hhot => ?_) _ hhot'
    unfold replayBlockUpdate
    dsimp only
    split
    · exact ⟨hot, rfl, hhot⟩
    · exact setHotExtent_some hhot ((hcpu _).2 i)

theorem replayAl84_spec (crc32c : (Nat → UInt8) → Nat) (hsize : md.alStripeSize4k < 2 ^ 32) (alDisk : Nat → UInt8) :
    (BlocksFit md ∧ ∃ r, replayAl84 crc32c md alDisk = some r ∧ ∀ found hot, r = .ok (found, hot) → Words hot) ∨
    (¬ BlocksFit md ∧ replayAl84 crc32c md alDisk = none) := by
  have hinit : Pass.Words ⟨fun _ => initializedBlock, ⟨0, 0, ⟨0, 0⟩, ⟨0, 0⟩⟩, alDisk⟩ :=
    fun _ => ⟨fun _ => Nat.zero_le _, fun _ => Nat.zero_le _⟩
  rw [← slots_fit_iff hsize]
  unfold replayAl84
  dsimp only
  rcases pass84 crc32c hinit with ⟨hall, p, hrun, hp⟩ | ⟨⟨b, hb, hbad⟩, hrun⟩
  · refine .inl ⟨hall, ?_⟩
    rw [hrun, Option.bind_some]
    have hempty : blocks84 md = 0 → p.scan.foundValid = 0 := by
      intro h0
      rw [h0] at hrun
      cases hrun
      rfl
    split
    · exact ⟨_, rfl, fun _ _ he => by cases he⟩
    · rename_i hfound
      have hpos : 0 < blocks84 md := Nat.pos_of_ne_zero fun h0 => hfound (hempty h0)
      split
      · split
        · refine ⟨_, rfl, fun _ _ he => ?_⟩
          cases he
          exact words_unused
        · rw [if_neg (Nat.ne_of_gt hpos)]
          split
          · refine ⟨_, rfl, fun _ _ he => ?_⟩
            cases he
            exact words_unused
          · exact ⟨_, rfl, fun _ _ he => by cases he⟩
      · obtain ⟨hot, hwalk, hhot⟩ :=
          foldlM_total (fun hot b hhot => replayBlockAt_some hpos hp hhot b) (walk p.scan (blocks84 md)) words_unused
        refine ⟨_, by rw [hwalk, Option.map_some], fun _ _ he => ?_⟩
        cases he
        exact hhot
  · exact .inr ⟨fun hall => hbad (hall b hb), by rw [hrun, Option.bind_none]⟩

/-! ## The command -/

theorem initializeAl_some (crc32c : (Nat → UInt8) → Nat) (h : blocks84 cfg.md ≤ 8192) (dev onDiskBuffer : Nat → UInt8) :
    ∃ dev', initializeAl crc32c cfg dev onDiskBuffer = some dev' := by
  unfold initializeAl
  dsimp only
  rw [if_neg (by unfold Meta.bufferSize; omega)]
  cases cfg.version with
  | v07 => exact ⟨_, rfl⟩
  | v08 =>
      have hyes : ∀ (st : (Nat → UInt8) × Nat) (i : Nat), True → i < 8192 →
          ∃ st', initializeBlock crc32c st i = some st' ∧ True := by
        intro st i _ hi
        unfold initializeBlock
        rw [if_pos (by unfold Meta.bufferSize; omega)]
        exact ⟨_, rfl, trivial⟩
      have hno : ∀ (st : (Nat → UInt8) × Nat) (i : Nat), True → ¬ i < 8192 → initializeBlock crc32c st i = none := by
        intro st i _ hi
        unfold initializeBlock
        rw [if_neg (by unfold Meta.bufferSize; omega)]
      rcases foldlM_checked hyes hno (List.range (blocks84 cfg.md)) trivial with ⟨_, st, hrun, _⟩ | ⟨⟨i, hi, hbad⟩, _⟩
      · exact ⟨_, by rw [hrun, Option.map_some]⟩
      · have := List.mem_range.1 hi
        omega

/-- What the super block has to say for the log on disk to be read in bounds. -/
def Cfg.Fits (cfg : Cfg) (alDisk : Nat → UInt8) : Prop :=
  if cfg.Old alDisk then cfg.md.alNrExtents ≤ 3843 ∨ 2 ^ 32 - 60 ≤ cfg.md.alNrExtents else BlocksFit cfg.md

/-- With the extents replayed, the rest of the command is in bounds. -/
theorem finish_some (crc32c : (Nat → UInt8) → Nat) (hblocks : cfg.version = .v08 → blocks84 cfg.md ≤ 8192)
    (found : Nat) (hhot : Words hot) (p : Prop) [Decidable p] (hp : p → cfg.version = .v08) (dev alDisk : Nat → UInt8) :
    ∃ r : Nat × (Nat → UInt8),
      (if 0 < found ∧ cfg.needToApplyAl then applyAl cfg.bitmap dev alDisk (sorted hot) else some dev).bind (fun dev =>
        if p ∨ (0 < found ∧ cfg.version ≠ .v07) then (initializeAl crc32c cfg dev alDisk).map fun dev => (0, dev)
        else some (0, dev)) = some r := by
  have happlied : ∃ dev', (if 0 < found ∧ cfg.needToApplyAl then applyAl cfg.bitmap dev alDisk (sorted hot)
      else some dev) = some dev' := by
    split
    · obtain ⟨dev', hrun, _⟩ := @applyAl_spec (sorted hot) cfg.bitmap dev alDisk (sorted_sorted hhot)
      exact ⟨dev', hrun⟩
    · exact ⟨dev, rfl⟩
  obtain ⟨dev', hrun⟩ := happlied
  rw [hrun, Option.bind_some]
  split
  · rename_i hinit
    have hv : cfg.version = .v08 := by
      rcases hinit with hp' | ⟨_, hne⟩
      · exact hp hp'
      · cases hv : cfg.version with
        | v07 => exact absurd hv hne
        | v08 => rfl
    obtain ⟨dev'', hdev⟩ := initializeAl_some crc32c (hblocks hv) dev' alDisk
    exact ⟨_, by rw [hdev, Option.map_some]⟩
  · exact ⟨_, rfl⟩

/-- For a super block of 32-bit fields and whatever is on disk: nothing is touched out of bounds exactly when the
super block fits. -/
theorem meta_apply_al_in_bounds (crc32c : (Nat → UInt8) → Nat) {cfg : Cfg} (hnr : cfg.md.alNrExtents < 2 ^ 32)
    (hsize : cfg.md.alStripeSize4k < 2 ^ 32) (dev onDiskBuffer : Nat → UInt8) :
    (metaApplyAl crc32c cfg dev onDiskBuffer).isSome = true ↔ cfg.Fits (readAl cfg dev onDiskBuffer) := by
  unfold metaApplyAl Cfg.Fits
  dsimp only
  generalize readAl cfg dev onDiskBuffer = alDisk
  by_cases hold : cfg.Old alDisk
  · rw [if_pos hold, if_pos hold, ← sectors07_le hnr]
    rcases replayAl07_spec cfg.md.alNrExtents alDisk with ⟨hle, found, hot, hrun, hhot⟩ | ⟨hlt, hrun⟩
    · have hblocks : cfg.version = .v08 → blocks84 cfg.md ≤ 8192 := by
        intro hv
        rcases hold with hv7 | hnew
        · rw [hv] at hv7
          cases hv7
        · -- the layout of the old activity log
          push Not at hnew
          rw [blocks84, hnew.2.2.2.1, hnew.2.2.2.2]
          decide
      obtain ⟨r, hr⟩ := finish_some crc32c hblocks found hhot (cfg.Old alDisk ∧ cfg.version = .v08)
        (fun h => h.2) dev alDisk
      rw [hrun, Option.map_some, Option.bind_some]
      dsimp only
      rw [hr]
      exact ⟨fun _ => hle, fun _ => rfl⟩
    · rw [hrun, Option.map_none, Option.bind_none]
      exact ⟨fun h => absurd h (by decide), fun h => absurd h (Nat.not_le.2 hlt)⟩
  · rw [if_neg hold, if_neg hold]
    rcases replayAl84_spec crc32c hsize alDisk with ⟨hfit, r, hrun, hwords⟩ | ⟨hnot, hrun⟩
    · rw [hrun, Option.bind_some]
      refine ⟨fun _ => hfit, fun _ => ?_⟩
      cases r with
      | error e =>
          obtain ⟨dev', hdev⟩ := initializeAl_some crc32c hfit.le dev alDisk
          dsimp only
          split
          · rfl
          · split
            · rw [hdev]
              rfl
            · rfl
      | ok r =>
          obtain ⟨found, hot⟩ := r
          obtain ⟨r, hr⟩ := finish_some crc32c (fun _ => hfit.le) found (hwords found hot rfl)
            (cfg.Old alDisk ∧ cfg.version = .v08) (fun h => h.2) dev alDisk
          dsimp only
          rw [hr]
          rfl
    · rw [hrun, Option.bind_none]
      exact ⟨fun h => absurd h (by decide), fun h => absurd h hnot⟩

/-- A super block of external meta data for `al-extents 3844`, as `drbdmeta` writes it, of an 8.4 version. -/
def manyExtents (alNrExtents : Nat) : Meta.MdCpu where
  laSect := 2 ^ 21
  uuid _ := 1
  deviceUuid := 1
  flags := 0
  magic := Meta.mdMagic08
  mdSizeSect := 2 ^ 18
  alOffset := 8
  alNrExtents := alNrExtents
  bmOffset := 72
  bmBytesPerBit := 4096
  laPeerMaxBioSize := 0
  alStripes := 1
  alStripeSize4k := 8

def manyExtentsCfg (alNrExtents : Nat) : Cfg := ⟨.v08, manyExtents alNrExtents, 0, 4096, ⟨32768, 0, 36864⟩⟩

theorem readAl_zero (cfg : Cfg) : readAl cfg (fun _ => 0) (fun _ => 0) = fun _ => 0 := by
  funext x
  unfold readAl
  split <;> rfl

theorem manyExtents_old (alNrExtents : Nat) : (manyExtentsCfg alNrExtents).Old fun _ => 0 := by
  refine .inr ?_
  rintro (h | h | h | h | h)
  · exact absurd h (show Meta.mdMagic08 ≠ Meta.mdMagic84Unclean by decide)
  · exact absurd h (by decide)
  · exact absurd h (by decide)
  · exact h rfl
  · exact h rfl

theorem manyExtents_valid (alNrExtents : Nat) : Layout.IsValidMd (.index 0) (manyExtents alNrExtents) (2 ^ 40) := by
  have hsize : Meta.alSizeSect (manyExtents alNrExtents) = 64 := @signed_eq_self 31 64 (by decide) (by decide)
  refine ⟨.inl rfl, rfl, ?_⟩
  rw [hsize]
  rfl

theorem meta_apply_al_in_bounds_few : Layout.IsValidMd (.index 0) (manyExtents 3843) (2 ^ 40) ∧
    (metaApplyAl (fun _ => 0) (manyExtentsCfg 3843) (fun _ => 0) fun _ => 0).isSome = true := by
  refine ⟨manyExtents_valid 3843, (meta_apply_al_in_bounds _ (by decide) (by decide) _ _).2 ?_⟩
  rw [readAl_zero, Cfg.Fits, if_pos (manyExtents_old 3843)]
  decide

/-- One extent more than the 63 sectors of the old format have room for: `valid[64]` is written. -/
theorem meta_apply_al_out_of_bounds : Layout.IsValidMd (.index 0) (manyExtents 3844) (2 ^ 40) ∧
    metaApplyAl (fun _ => 0) (manyExtentsCfg 3844) (fun _ => 0) (fun _ => 0) = none := by
  refine ⟨manyExtents_valid 3844, ?_⟩
  have hmany : ¬ sectors07 3844 ≤ MD_AL_MAX_SECT_07 := by decide
  unfold metaApplyAl
  dsimp only
  rw [readAl_zero, if_pos (manyExtents_old 3844)]
  rcases replayAl07_spec 3844 fun _ => 0 with ⟨hle, _⟩ | ⟨_, hrun⟩
  · exact absurd hle hmany
  · rw [show (manyExtentsCfg 3844).md.alNrExtents = 3844 from rfl, hrun]
    rfl

end Drbd.ApplyAl
