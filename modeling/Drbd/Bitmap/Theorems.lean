import Drbd.Bitmap.Lemmas.Invariant

/-!
# The bitmap store

Over every sequence of operations the count is right, nothing is surplus, and the store stands for
the blocks that the contracts name, as long as no recount meets a set bit in the last word and no
call flips more bits than an `int` counts.
-/

namespace Drbd.Bitmap

open Drbd.Lib

variable {s s' : Store}

/-- The count is right, and the bits past the end are zero. -/
structure Sound (s : Store) : Prop where
  count : s.bmSet = (List.range s.bmBits).countP s.bit
  surplus : NoSurplus s.toDrbdBitmap

theorem Inv.sound (h : Inv s) : Sound s :=
  ⟨(counted_iff h.word_aligned).1 h.counted, noSurplus_aligned h.word_aligned⟩

/-- A step that recounts, a shrinking resize or a read back, meets no set bit in the last word. -/
def LastWordClean (s : Store) : Op → Prop
  | .resize cSize _ env =>
      let n := newLen s.bmBits cSize env
      n ≠ 0 → n < s.bmBits → s.word (n / 64 - 1) = 0
  | .writeRead _ => s.word (s.bmBits / 64 - 1) = 0
  | _ => True

/-- A step that counts its flips in an `int` flips no more than that holds. -/
def FlipsFit (s : Store) : Op → Prop
  | .setBits lo hi => FewFlips s.toDrbdBitmap lo hi true
  | .clearBits lo hi => FewFlips s.toDrbdBitmap lo hi false
  | _ => True

/-! ## Writing and reading back -/

/-- The first `n` pages are on disk after the write loop has passed them. -/
structure Written (s r : Store) (n : Nat) : Prop where
  word : r.word = s.word
  bits : r.bmBits = s.bmBits
  capacity : r.bmDevCapacity = s.bmDevCapacity
  flags : ∀ p, n ≤ p → r.testPageUnchanged p = s.testPageUnchanged p
  disk : ∀ w, w / 512 < n → w < s.bmWords → r.disk w = s.word w
  rest : ∀ w, n ≤ w / 512 → r.disk w = s.disk w

theorem Written.page {r : Store} {n : Nat} (hs : Inv s) (h : Written s r n) (all : Bool) :
    Written s (r.writePage all n) (n + 1) := by
  unfold Store.writePage
  split
  · rename_i hskip
    simp only [Bool.and_eq_true] at hskip
    have hflag := hskip.2
    rw [h.flags n (le_refl n)] at hflag
    refine ⟨h.word, h.bits, h.capacity, fun p hp => h.flags p (by omega), fun w hw hin => ?_,
      fun w hw => h.rest w (by omega)⟩
    by_cases hpage : w / 512 = n
    · rw [h.rest w (by omega), hs.sync w (by rw [hpage]; exact hflag) hin]
    · exact h.disk w (by omega) hin
  · refine ⟨h.word, h.bits, h.capacity, fun p hp => ?_, fun w hw hin => ?_, fun w hw => ?_⟩
    · have hne : p ≠ n := by omega
      have hflag := h.flags p (by omega)
      simpa [DrbdBitmap.testPageUnchanged, DrbdBitmap.setPageUnchanged, hne] using hflag
    · show (if w / 512 = n then r.word w else r.disk w) = s.word w
      split
      · rw [h.word]
      · exact h.disk w (by omega) hin
    · show (if w / 512 = n then r.word w else r.disk w) = s.disk w
      rw [if_neg (by omega)]
      exact h.rest w (by omega)

theorem Written.all (hs : Inv s) (all : Bool) (n : Nat) :
    Written s ((List.range n).foldl (Store.writePage all) s) n := by
  induction n with
  | zero => exact ⟨rfl, rfl, rfl, fun _ _ => rfl, fun w hw => absurd hw (Nat.not_lt_zero _), fun _ _ => rfl⟩
  | succ n ih =>
      rw [List.range_succ, List.foldl_append, List.foldl_cons, List.foldl_nil]
      exact ih.page hs all

theorem foldl_readPage (r : Store) (n : Nat) :
    let t := (List.range n).foldl Store.readPage r
    t.bmBits = r.bmBits ∧ t.bmDevCapacity = r.bmDevCapacity ∧ t.disk = r.disk ∧
      ∀ w, t.word w = if w / 512 < n then r.disk w else r.word w := by
  induction n with
  | zero => exact ⟨rfl, rfl, rfl, fun w => by rw [if_neg (by omega)]; rfl⟩
  | succ n ih =>
      rw [List.range_succ, List.foldl_append, List.foldl_cons, List.foldl_nil]
      generalize (List.range n).foldl Store.readPage r = t at ih ⊢
      obtain ⟨hbits, hcap, hdisk, hword⟩ := ih
      refine ⟨hbits, hcap, hdisk, fun w => ?_⟩
      show (if w / 512 = n then t.disk w else t.word w) = _
      rw [hdisk, hword w]
      by_cases hw : w / 512 = n
      · rw [if_pos hw, if_pos (by omega)]
      · rw [if_neg hw]
        have hiff : w / 512 < n + 1 ↔ w / 512 < n := by omega
        simp only [hiff]

/-- What was written is read back. -/
theorem Inv.writeRead (h : Inv s) {all : Bool} (hclean : s.word (s.bmBits / 64 - 1) = 0)
    (hs : drbdBmRead (drbdBmWrite s all) = some s') : Inv s' ∧ s'.blocks = s.blocks := by
  have hwr : Written s (drbdBmWrite s all) s.bmNumberOfPages := Written.all h all _
  generalize drbdBmWrite s all = r at hwr hs
  have halign := h.word_aligned
  unfold drbdBmRead at hs
  split at hs
  · cases hs
  rename_i hpos
  rw [hwr.bits] at hpos
  have hpages : r.bmNumberOfPages = s.bmNumberOfPages := by
    unfold DrbdBitmap.bmNumberOfPages
    rw [DrbdBitmap.bmWords_congr hwr.bits]
  rw [hpages] at hs
  obtain ⟨hbits, hcap, hdisk, hword⟩ := foldl_readPage r s.bmNumberOfPages
  generalize (List.range s.bmNumberOfPages).foldl Store.readPage r = t at hs hbits hcap hdisk hword
  rw [hwr.bits] at hbits
  have hsame : ∀ w, w < s.bmWords → t.word w = s.word w := by
    intro w hw
    have hin : w / 512 < s.bmNumberOfPages := by unfold DrbdBitmap.bmNumberOfPages; omega
    rw [hword w, if_pos hin, hwr.disk w hin hw]
  have hwords : s.bmWords = s.bmBits / 64 := by unfold DrbdBitmap.bmWords; omega
  obtain ⟨hcount, hn⟩ := bmCountBits_eq (b := t.toDrbdBitmap) (by rw [hbits]; exact halign) (by rw [hbits]; exact hpos)
  have hlast : t.word (t.bmBits / 64 - 1) = 0 := by
    rw [hbits, hsame _ (by omega), hclean]
  rw [setWord_zero hlast] at hcount hn
  simp only [hcount, hn, Option.some.injEq] at hs
  subst hs
  refine ⟨⟨?_, ?_, ?_, fun w _ hw => ?_⟩, Store.blocks_eq hbits (fun i hi => Store.dirty_out hi) (fun i hi => ?_)⟩
  · exact counted_of_weight (b := t.toDrbdBitmap) rfl rfl rfl
  · show t.bmBits % 4096 = 0
    rw [hbits]
    exact h.aligned
  · show t.bmDevCapacity = t.bmBits * 8
    rw [hbits, hcap, hwr.capacity]
    exact h.capacity
  · show t.word w = t.disk w
    have hw : w < t.bmWords := hw
    rw [DrbdBitmap.bmWords_congr hbits] at hw
    have hin : w / 512 < s.bmNumberOfPages := by unfold DrbdBitmap.bmNumberOfPages; omega
    rw [hword w, if_pos hin, hdisk]
  · have hi : i < s.bmBits := hi
    rw [Store.dirty_blocks hi]
    show (t.word (i / 64)).getLsbD (i % 64) = (s.word (i / 64)).getLsbD (i % 64)
    rw [hsame _ (by omega)]

/-! ## Resizing -/

theorem Inv.resized (h : Inv s) {bits : Nat} {new : Bool} {b' : DrbdBitmap} (hbits : bits % 4096 = 0)
    (hr : Resized s.toDrbdBitmap b' bits new) :
    Inv { s with toDrbdBitmap := b', bmDevCapacity := bits * 8 } := by
  refine ⟨hr.counted, ?_, ?_, fun w hp hw => ?_⟩
  · show b'.bmBits % 4096 = 0
    rw [hr.len]
    exact hbits
  · show bits * 8 = b'.bmBits * 8
    rw [hr.len]
  · obtain ⟨hlow, hflag, hword⟩ := hr.unchanged w hw hp
    show b'.word w = s.disk w
    rw [hword, h.sync w hflag hlow]

theorem Inv.resize (h : Inv s) {cSize : Nat} {new : Bool} {env : Surroundings}
    (hclean : LastWordClean s (.resize cSize new env)) (hs : step s (.resize cSize new env) = some s') :
    Inv s' ∧ s'.blocks = s.blocks.apply (.resize cSize new env) := by
  have halign := h.aligned
  have hcap := h.capacity
  -- a resize that leaves the length alone leaves the blocks alone
  have hkeep : newLen s.bmBits cSize env = s.bmBits → s.blocks = s.blocks.apply (.resize cSize new env) := by
    intro hn
    have hlen : s.blocks.len = s.bmBits := rfl
    simp only [Blocks.apply, hlen, hn]
    refine Store.blocks_eq rfl (fun i hi => ?_) (fun i hi => ?_)
    · have hi : ¬ i < s.bmBits := Nat.not_lt.2 hi
      simp only [decide_eq_false hi, Bool.false_and]
    · have hi : i < s.bmBits := hi
      simp only [decide_eq_true hi, if_pos hi, Store.dirty_blocks hi, Bool.true_and]
  have hcapacity : cSize - cSize % 32768 = cSize / 32768 * 4096 * 8 := by omega
  have hpages : s.bmNumberOfPages = pagesOf s.bmBits := rfl
  simp only [step, drbdBmResize, hcapacity, hpages] at hs
  rw [show (cSize / 32768 * 4096 * 8 + 7) / 8 * 8 / 8 = cSize / 32768 * 4096 by omega] at hs
  obtain ⟨n, hn⟩ : ∃ n, n = cSize / 32768 * 4096 := ⟨_, rfl⟩
  have hn4096 : n % 4096 = 0 := by omega
  have hnew : newLen s.bmBits cSize env = if n = 0 then 0 else if env.bitsOnDisk.any (· < n) then s.bmBits
      else if pagesOf n ≠ pagesOf s.bmBits ∧ env.memory = false then s.bmBits else n := by
    rw [hn]
    rfl
  simp only [LastWordClean] at hclean
  rw [← hn] at hs
  by_cases hsame : n * 8 = s.bmDevCapacity
  · rw [if_pos hsame] at hs
    cases hs
    refine ⟨h, hkeep ?_⟩
    rw [hnew]
    split
    · omega
    · split
      · rfl
      · split
        · rfl
        · omega
  rw [if_neg hsame] at hs
  by_cases hzero : n = 0
  · rw [if_pos (by omega)] at hs
    cases hs
    rw [if_pos hzero] at hnew
    refine ⟨⟨by simp [Counted, DrbdBitmap.weight, DrbdBitmap.bmWords], rfl, rfl, fun w _ hw => ?_⟩, ?_⟩
    · simp [DrbdBitmap.bmWords] at hw
    · refine Store.blocks_eq hnew.symm (fun i hi => ?_) (fun i hi => ?_)
      · have hi : newLen s.bmBits cSize env ≤ i := hi
        simp [Blocks.apply, Store.blocks, hnew]
      · have hi : i < newLen s.bmBits cSize env := hi
        omega
  rw [if_neg (by omega)] at hs
  rw [if_neg hzero] at hnew
  by_cases hroom : env.bitsOnDisk.any (· < n) = true
  · rw [if_pos hroom] at hs hnew
    cases hs
    exact ⟨h, hkeep hnew⟩
  rw [if_neg hroom] at hs hnew
  by_cases hmem : pagesOf n ≠ pagesOf s.bmBits ∧ env.memory = false
  · rw [if_pos hmem] at hs hnew
    cases hs
    exact ⟨h, hkeep hnew⟩
  rw [if_neg hmem] at hs hnew
  cases hs
  have hr : Resized s.toDrbdBitmap (bmResizeTo s.toDrbdBitmap n new env.page) n new := by
    by_cases hlt : s.bmBits < n
    · exact .grow h.counted h.word_aligned (by omega) hlt
    · have hlt' : n < s.bmBits := by omega
      refine .shrink h.word_aligned (by omega) hzero hlt' ?_
      rw [hnew] at hclean
      exact hclean hzero hlt'
  refine ⟨h.resized hn4096 hr, Store.blocks_eq (hr.len.trans hnew.symm) (fun i hi => ?_) (fun i hi => ?_)⟩
  · have hi : newLen s.bmBits cSize env ≤ i := hi
    have hlen : s.blocks.len = s.bmBits := rfl
    simp only [Blocks.apply, hlen, decide_eq_false (Nat.not_lt.2 hi), Bool.false_and]
  · have hi : i < newLen s.bmBits cSize env := hi
    have hlen : s.blocks.len = s.bmBits := rfl
    simp only [Blocks.apply, hlen, decide_eq_true hi, Bool.true_and]
    show (bmResizeTo s.toDrbdBitmap n new env.page).bit i = _
    rw [hr.bit i (by omega)]
    split
    · rw [Store.dirty_blocks (by assumption)]
    · rfl

/-! ## Every operation -/

theorem Inv.step {op : Op} (h : Inv s) (hc : Contract s op) (hclean : LastWordClean s op)
    (hfew : FlipsFit s op) (hs : step s op = some s') : Inv s' ∧ s'.blocks = s.blocks.apply op := by
  cases op with
  | resize cSize new env => exact h.resize hclean hs
  | writeRead all => exact h.writeRead hclean hs
  | setAll => cases hs; exact h.setAll
  | clearAll => cases hs; exact h.clearAll
  | setBits lo hi =>
      cases hs
      refine ⟨h.changeBits hfew, Store.blocks_eq (bmBits_bmChangeBitsTo s.toDrbdBitmap lo hi true)
        (fun i hi => ?_) (fun i hi => ?_)⟩
      · have hi : ¬ i < s.bmBits := Nat.not_lt.2 hi
        simp [Blocks.apply, Store.blocks, hi]
      · have hi : i < s.bmBits := hi
        show (drbdBmSetBits s.toDrbdBitmap lo _).1.bit i = _
        rw [bit_drbdBmSetBits s.toDrbdBitmap lo _ hi]
        simp [Blocks.apply, Store.blocks, hi]
  | clearBits lo hi =>
      cases hs
      refine ⟨h.changeBits hfew, Store.blocks_eq (bmBits_bmChangeBitsTo s.toDrbdBitmap lo hi false)
        (fun i hi => ?_) (fun i hi => ?_)⟩
      · have hi : s.bmBits ≤ i := hi
        simp [Blocks.apply, Store.blocks, hi]
      · have hi : i < s.bmBits := hi
        show (drbdBmClearBits s.toDrbdBitmap lo _).1.bit i = _
        rw [bit_drbdBmClearBits s.toDrbdBitmap lo _ hi]
        simp [Blocks.apply, Store.blocks, hi]
  | setBitsBulk lo hi =>
      cases hs
      have hg := Gains.setBitsBulk s.toDrbdBitmap (s := lo) hc.2
      have hlt : hi < s.bmBits := hc.2
      refine ⟨h.gains hg (Marks.setBitsBulk s.toDrbdBitmap lo hi), Store.blocks_eq hg.bits (fun i hi => ?_)
        (fun i hi => ?_)⟩
      · have hi : s.bmBits ≤ i := hi
        have hout : ∀ _ : lo ≤ i, _ < i := fun _ => Nat.lt_of_lt_of_le hlt hi
        simpa [Blocks.apply, Store.blocks, hi] using hout
      · have hi : i < s.bmBits := hi
        show (drbdBmSetBitsBulk s.toDrbdBitmap lo _).bit i = _
        rw [hg.bit i]
        simp [Blocks.apply, Store.blocks, hi]
  | mergeLel offset buffer =>
      cases hs
      have hc : offset + buffer.length ≤ s.bmWords := hc
      have halign := h.word_aligned
      obtain ⟨hinv, hbit⟩ := h.mergeLel hc
      have hlen : (drbdBmMergeLel s.toDrbdBitmap offset buffer).bmBits = s.bmBits := by
        have h₁ := hinv.capacity
        have h₂ := h.capacity
        dsimp only at h₁
        omega
      refine ⟨hinv, Store.blocks_eq hlen (fun i hi => ?_) (fun i hi => ?_)⟩
      · have hi : s.bmBits ≤ i := hi
        have hout : buffer.length ≤ i / 64 - offset := by
          unfold DrbdBitmap.bmWords at hc
          omega
        simp [Blocks.apply, Store.blocks, hi, List.getElem?_eq_none hout]
      · have hi : i < s.bmBits := hi
        show (drbdBmMergeLel s.toDrbdBitmap offset buffer).bit i = _
        rw [hbit i]
        simp [Blocks.apply, Store.blocks, hi]

/-- The run: what one step keeps, every sequence keeps. -/
theorem Inv.run {ops : List Op} {m : Blocks} (h : Inv s) (hm : s.blocks = m)
    (hc : Meets Bitmap.step Contract s ops) (hclean : Meets Bitmap.step LastWordClean s ops)
    (hfew : Meets Bitmap.step FlipsFit s ops)
    (hrun : run Bitmap.step s ops = some s') : Inv s' ∧ s'.blocks = ops.foldl Blocks.apply m := by
  induction ops generalizing s m with
  | nil =>
      simp only [Lib.run, Option.some.injEq] at hrun
      subst hrun
      exact ⟨h, hm⟩
  | cons op ops ih =>
      obtain ⟨t, ht, hrest⟩ := run_cons hrun
      obtain ⟨hinv, hblocks⟩ := h.step hc.1 hclean.1 hfew.1 ht
      rw [hm] at hblocks
      exact ih hinv hblocks (hc.2 t ht) (hclean.2 t ht) (hfew.2 t ht) hrest

theorem blocks_drbdBmInit (disk : Nat → BitVec 64) : (drbdBmInit disk).blocks = ⟨0, fun _ => false⟩ :=
  Store.blocks_eq rfl (fun _ _ => rfl) fun i hi => absurd hi (Nat.not_lt_zero i)

theorem bitmap_store_sound (disk : Nat → BitVec 64) (ops : List Op) (s : Store)
    (hc : Meets step Contract (drbdBmInit disk) ops)
    (hclean : Meets step LastWordClean (drbdBmInit disk) ops)
    (hfew : Meets step FlipsFit (drbdBmInit disk) ops)
    (hrun : run step (drbdBmInit disk) ops = some s) :
    Sound s ∧ s.blocks = ops.foldl Blocks.apply ⟨0, fun _ => false⟩ := by
  obtain ⟨hinv, hblocks⟩ := (inv_drbdBmInit disk).run (blocks_drbdBmInit disk) hc hclean hfew hrun
  exact ⟨hinv.sound, hblocks⟩

instance Contract.instDecidable (s : Store) : ∀ op, Decidable (Contract s op)
  | .setBitsBulk _ _ => inferInstanceAs (Decidable (_ ∧ _))
  | .mergeLel _ _ => inferInstanceAs (Decidable (_ ≤ _))
  | .resize _ _ _ | .setBits _ _ | .clearBits _ _ | .setAll | .clearAll | .writeRead _ =>
      inferInstanceAs (Decidable True)

instance LastWordClean.instDecidable (s : Store) : ∀ op, Decidable (LastWordClean s op)
  | .resize _ _ _ => inferInstanceAs (Decidable (_ → _ → _))
  | .writeRead _ => inferInstanceAs (Decidable (_ = _))
  | .setBits _ _ | .clearBits _ _ | .setBitsBulk _ _ | .mergeLel _ _ | .setAll | .clearAll =>
      inferInstanceAs (Decidable True)

instance FewFlips.instDecidable (b : DrbdBitmap) (lo hi : Nat) : ∀ val, Decidable (FewFlips b lo hi val)
  | true => inferInstanceAs (Decidable (_ < _))
  | false => inferInstanceAs (Decidable (_ ≤ _))

instance FlipsFit.instDecidable (s : Store) : ∀ op, Decidable (FlipsFit s op)
  | .setBits lo hi => FewFlips.instDecidable s.toDrbdBitmap lo hi true
  | .clearBits lo hi => FewFlips.instDecidable s.toDrbdBitmap lo hi false
  | .resize _ _ _ | .setBitsBulk _ _ | .mergeLel _ _ | .setAll | .clearAll | .writeRead _ =>
      inferInstanceAs (Decidable True)

/-- An attached disk with room for 32768 blocks. -/
def roomy : Surroundings := ⟨some 32768, true, fun _ => 0⟩

/-- Grow, set, write out and read back, shrink. -/
def growAndShrink : List Op :=
  [.resize 65536 false roomy, .setBits 100 120, .mergeLel 0 [1], .writeRead false, .resize 32768 false roomy]

theorem bitmap_store_sound_shrink :
    ∃ s, run step (drbdBmInit fun _ => 0) growAndShrink = some s ∧ Sound s ∧
      s.blocks = growAndShrink.foldl Blocks.apply ⟨0, fun _ => false⟩ := by
  have hsome : (run step (drbdBmInit fun _ => 0) growAndShrink).isSome = true := by decide
  obtain ⟨s, hs⟩ := Option.isSome_iff_exists.1 hsome
  exact ⟨s, hs, bitmap_store_sound (fun _ => 0) growAndShrink s (by decide) (by decide) (by decide) hs⟩

/-- The last block of a device of 16 MiB is marked, the bitmap written and read back. -/
def lastBlock : List Op :=
  [.resize 32768 false roomy, .setBits 4095 4095, .writeRead false]

theorem read_back_loses_last_block :
    ¬ ∀ (disk : Nat → BitVec 64) (ops : List Op) (s : Store), Meets step Contract (drbdBmInit disk) ops →
      run step (drbdBmInit disk) ops = some s →
      Sound s ∧ s.blocks = ops.foldl Blocks.apply ⟨0, fun _ => false⟩ := by
  intro hall
  have hlost : (run step (drbdBmInit fun _ => 0) lastBlock).map (fun s => s.blocks.dirty 4095) = some false := by
    decide
  obtain ⟨s, hs, hdirty⟩ := Option.map_eq_some_iff.1 hlost
  have hblocks := (hall (fun _ => 0) lastBlock s (by decide) hs).2
  have hspec : (lastBlock.foldl Blocks.apply ⟨0, fun _ => false⟩).dirty 4095 = true := by decide
  rw [← hblocks, hdirty] at hspec
  cases hspec

end Drbd.Bitmap
