import Drbd.Bitmap.Lemmas.Flips

/-!
# Setting and merging whole words
-/

namespace Drbd.Bitmap

open Finset

variable {b b' : DrbdBitmap}

/-! ## Full words -/

/-- The words from `lo` up to, not including, `hi` are filled, and counted. -/
structure Filled (b b' : DrbdBitmap) (lo hi : Nat) : Prop where
  bits : b'.bmBits = b.bmBits
  word : ∀ w, b'.word w = if lo ≤ w ∧ w < hi then BitVec.allOnes 64 else b.word w
  count : Recounted b b'

theorem Filled.refl (b : DrbdBitmap) (n : Nat) : Filled b b n n :=
  ⟨rfl, fun w => by rw [if_neg (by omega)], rfl⟩

theorem Filled.trans {b'' lo mid hi} (h : Filled b b' lo mid) (h' : Filled b' b'' mid hi)
    (hlo : lo ≤ mid) (hhi : mid ≤ hi) : Filled b b'' lo hi where
  bits := h'.bits.trans h.bits
  word w := by
    rw [h'.word, h.word]
    by_cases h₁ : mid ≤ w ∧ w < hi
    · rw [if_pos h₁, if_pos (by omega)]
    · rw [if_neg h₁]
      by_cases h₂ : lo ≤ w ∧ w < mid
      · rw [if_pos h₂, if_pos (by omega)]
      · rw [if_neg h₂, if_neg (by omega)]
  count := h.count.trans h'.count

theorem foldl_fillWord (page n first : Nat) (b : DrbdBitmap) (changed : Nat)
    (hin : page * 512 + first + n ≤ b.bmWords) :
    let r := (List.range' first n).foldl (fillWord page) (b, changed)
    r.1.bmBits = b.bmBits ∧ r.1.bmSet = b.bmSet ∧ r.1.weight + changed = b.weight + r.2 ∧
      ∀ w, r.1.word w = if page * 512 + first ≤ w ∧ w < page * 512 + first + n
        then BitVec.allOnes 64 else b.word w := by
  induction n generalizing first b changed with
  | zero => exact ⟨rfl, rfl, rfl, fun w => by rw [if_neg (by omega)]; rfl⟩
  | succ n ih =>
      rw [List.range'_succ, List.foldl_cons]
      simp only [fillWord]
      generalize hb₁ : b.setWord (page * 512 + first) (BitVec.allOnes 64) = b₁
      have hweight : b₁.weight + hweightLong (b.word (page * 512 + first)) = b.weight + 64 := by
        rw [← hb₁, weight_setWord _ (by omega), hweightLong_allOnes]
      have hle := hweightLong_le (b.word (page * 512 + first))
      have hwords : b₁.bmWords = b.bmWords := DrbdBitmap.bmWords_congr (by rw [← hb₁]; rfl)
      obtain ⟨hbits, hset, hsum, hword⟩ := ih (first + 1) b₁
        (changed + (64 - hweightLong (b.word (page * 512 + first)))) (by rw [hwords]; omega)
      refine ⟨by rw [hbits, ← hb₁]; rfl, by rw [hset, ← hb₁]; rfl, by omega, fun w => ?_⟩
      rw [hword w, ← hb₁, DrbdBitmap.word_setWord]
      by_cases hw : w = page * 512 + first
      · subst hw
        simp
      · rw [if_neg hw]
        by_cases hin' : page * 512 + (first + 1) ≤ w ∧ w < page * 512 + (first + 1) + n
        · rw [if_pos hin', if_pos (by omega)]
        · rw [if_neg hin', if_neg (by omega)]

theorem Filled.onePage (b : DrbdBitmap) {page first last : Nat} (hle : first ≤ last)
    (hin : page * 512 + last ≤ b.bmWords) :
    Filled b (bmSetFullWordsWithinOnePage b page first last) (page * 512 + first) (page * 512 + last) := by
  obtain ⟨hbits, hset, hsum, hword⟩ := foldl_fillWord page (last - first) first b 0
    (by rw [Nat.add_assoc, Nat.add_sub_cancel' hle]; exact hin)
  unfold bmSetFullWordsWithinOnePage
  generalize (List.range' first (last - first)).foldl (fillWord page) (b, 0) = r at *
  obtain ⟨b₁, changed⟩ := r
  dsimp only at *
  have hend : page * 512 + first + (last - first) = page * 512 + last := by omega
  rw [hend] at hword
  split
  · refine ⟨hbits, hword, ?_⟩
    unfold Recounted
    omega
  · refine ⟨hbits, hword, ?_⟩
    have hweight : ({ b₁.setPageLazyWriteout page with bmSet := b₁.bmSet + changed } : DrbdBitmap).weight
        = b₁.weight := weight_congr rfl rfl
    unfold Recounted
    rw [hweight]
    dsimp only
    omega

theorem Filled.pages (n p fw : Nat) (b : DrbdBitmap) (hfw : fw ≤ 512)
    (hin : (p + n) * 512 ≤ b.bmWords) :
    let r := (List.range' p n).foldl fillPage (b, fw)
    r.2 = (if n = 0 then fw else 0) ∧ Filled b r.1 (p * 512 + fw) ((p + n) * 512 + r.2) := by
  induction n generalizing p fw b with
  | zero => exact ⟨rfl, .refl b _⟩
  | succ n ih =>
      rw [List.range'_succ, List.foldl_cons]
      simp only [fillPage]
      have hone : Filled b _ (p * 512 + fw) (p * 512 + 512) := .onePage b hfw (by omega)
      have hwords : (bmSetFullWordsWithinOnePage b p fw 512).bmWords = b.bmWords :=
        DrbdBitmap.bmWords_congr hone.bits
      obtain ⟨hfw', hrest⟩ := ih (p + 1) 0 (bmSetFullWordsWithinOnePage b p fw 512) (Nat.zero_le _)
        (by rw [hwords, Nat.add_right_comm]; exact hin)
      have hzero : ((List.range' (p + 1) n).foldl fillPage
          (bmSetFullWordsWithinOnePage b p fw 512, 0)).2 = 0 := by
        rw [hfw']; split <;> rfl
      refine ⟨by rw [hzero]; rfl, ?_⟩
      rw [hzero] at hrest ⊢
      rw [show (p + 1) * 512 + 0 = p * 512 + 512 by omega,
        show (p + 1 + n) * 512 + 0 = (p + (n + 1)) * 512 + 0 by omega] at hrest
      exact hone.trans hrest (by omega) (by omega)

/-- The page loop and the words of the last page together. -/
theorem Filled.words (b : DrbdBitmap) {lo hi : Nat} (hle : lo ≤ hi) (hin : hi ≤ b.bmWords) :
    let r := (List.range' (lo / 512) (hi / 512 - lo / 512)).foldl fillPage (b, lo % 512)
    Filled b (if hi % 512 = 0 then r.1 else bmSetFullWordsWithinOnePage r.1 (hi / 512) r.2 (hi % 512))
      lo hi := by
  obtain ⟨hfw, hpages⟩ := Filled.pages (hi / 512 - lo / 512) (lo / 512) (lo % 512) b
    (by omega) (by omega)
  generalize (List.range' (lo / 512) (hi / 512 - lo / 512)).foldl fillPage (b, lo % 512) = r
    at hfw hpages ⊢
  obtain ⟨b₁, firstWord⟩ := r
  dsimp only at hfw hpages ⊢
  -- a loop over no page leaves the first word where it was
  have hfirst : firstWord ≤ hi % 512 ∧ lo ≤ hi / 512 * 512 + firstWord := by
    split at hfw <;> omega
  rw [show lo / 512 * 512 + lo % 512 = lo by omega,
    show lo / 512 + (hi / 512 - lo / 512) = hi / 512 by omega] at hpages
  split
  · rename_i hzero
    rw [show hi / 512 * 512 + firstWord = hi by omega] at hpages
    exact hpages
  · have hwords : b₁.bmWords = b.bmWords := DrbdBitmap.bmWords_congr hpages.bits
    have hlast := Filled.onePage b₁ hfirst.1 (show hi / 512 * 512 + hi % 512 ≤ b₁.bmWords by omega)
    rw [show hi / 512 * 512 + hi % 512 = hi by omega] at hlast
    exact hpages.trans hlast hfirst.2 (by omega)

theorem Filled.bit {lo hi} (h : Filled b b' lo hi) (i : Nat) :
    b'.bit i = (decide (lo * 64 ≤ i ∧ i < hi * 64) || b.bit i) := by
  have hk : i % 64 < 64 := Nat.mod_lt _ (by decide)
  unfold DrbdBitmap.bit
  rw [h.word]
  by_cases hin : lo ≤ i / 64 ∧ i / 64 < hi
  · rw [if_pos hin, BitVec.getLsbD_allOnes, decide_eq_true hk, decide_eq_true (by omega), Bool.true_or]
  · rw [if_neg hin, decide_eq_false (by omega), Bool.false_or]

/-! ## Gaining bits -/

/-- Exactly the bits of `new` are added, and counted. -/
structure Gains (b b' : DrbdBitmap) (new : Nat → Bool) : Prop where
  bits : b'.bmBits = b.bmBits
  bit : ∀ i, b'.bit i = (new i || b.bit i)
  count : Recounted b b'

theorem Gains.refl (b : DrbdBitmap) : Gains b b fun _ => false :=
  ⟨rfl, fun _ => rfl, rfl⟩

theorem Gains.trans {b'' new new'} (h : Gains b b' new) (h' : Gains b' b'' new') :
    Gains b b'' fun i => new i || new' i where
  bits := h'.bits.trans h.bits
  bit i := by rw [h'.bit, h.bit, ← Bool.or_assoc, Bool.or_comm (new' i)]
  count := h.count.trans h'.count

theorem Gains.counted {new} (h : Gains b b' new) : Counted b → Counted b' :=
  h.count.counted

theorem Gains.congr {new new'} (h : Gains b b' new) (heq : ∀ i, new i = new' i) : Gains b b' new' :=
  ⟨h.bits, fun i => by rw [h.bit, heq], h.count⟩

theorem Filled.gains {lo hi} (h : Filled b b' lo hi) :
    Gains b b' fun i => decide (lo * 64 ≤ i ∧ i < hi * 64) :=
  ⟨h.bits, h.bit, h.count⟩

theorem Gains.bmChangeBitsTo (b : DrbdBitmap) (s : Nat) {e : Nat} (he : e < b.bmBits)
    (hlen : e < s + (2 ^ 31 - 1)) :
    Gains b (bmChangeBitsTo b s e true).1 fun i => decide (s ≤ i ∧ i ≤ e) where
  bits := bmBits_bmChangeBitsTo b s e true
  bit i := by
    rw [bit_bmChangeBitsTo b s e true (.inr he)]
    by_cases h : s ≤ i ∧ i ≤ e <;> simp [h]
  count := .setBits (.short b hlen true)

theorem DrbdBitmap.le_bmWords {n : Nat} (h : n * 64 ≤ b.bmBits) : n ≤ b.bmWords := by
  unfold DrbdBitmap.bmWords
  omega

theorem Gains.setBitsBulk (b : DrbdBitmap) {s e : Nat} (he : e < b.bmBits) :
    Gains b (drbdBmSetBitsBulk b s e) fun i => decide (s ≤ i ∧ i ≤ e) := by
  unfold drbdBmSetBitsBulk
  split
  · rename_i hnear
    simp only [bitsPerLong] at hnear
    exact .bmChangeBitsTo b s he (by omega)
  rename_i hfar
  simp only [bitsPerLong] at hfar
  dsimp only
  generalize hsl : (s + 63) / 64 * 64 = sl
  generalize hel : (e + 1) / 64 * 64 = el
  -- the bits up to the first full word
  have hhead : Gains b (if sl = 0 then b else (Bitmap.bmChangeBitsTo b s (sl - 1) true).1)
      fun i => decide (s ≤ i ∧ i < sl) := by
    split
    · exact (Gains.refl b).congr fun i => (decide_eq_false (by omega)).symm
    · refine (Gains.bmChangeBitsTo b s (by omega) (by omega)).congr fun i => ?_
      exact decide_eq_decide.2 (by omega)
  generalize (if sl = 0 then b else (Bitmap.bmChangeBitsTo b s (sl - 1) true).1) = b₁ at hhead ⊢
  -- the full words
  have hbits : b₁.bmBits = b.bmBits := hhead.bits
  have hmid := Filled.words b₁ (show sl / 64 ≤ el / 64 by omega)
    (DrbdBitmap.le_bmWords (show el / 64 * 64 ≤ b₁.bmBits by omega))
  rw [Nat.div_div_eq_div_mul, Nat.div_div_eq_div_mul] at hmid
  dsimp only at hmid
  rw [show (64 * 512 : Nat) = bitsPerPage from rfl] at hmid
  generalize (if el / 64 % 512 = 0 then _ else _ : DrbdBitmap) = b₂ at hmid ⊢
  have hboth := hhead.trans hmid.gains
  -- and the bits after the last one
  split
  · refine (hboth.trans (Gains.bmChangeBitsTo b₂ el (by rw [hboth.bits]; exact he) (by omega))).congr fun i => ?_
    rw [← Bool.decide_or, ← Bool.decide_or]
    exact decide_eq_decide.2 (by omega)
  · refine hboth.congr fun i => ?_
    rw [← Bool.decide_or]
    exact decide_eq_decide.2 (by omega)

/-! ## Merging words -/

/-- The bits of the last word past the end are zero. -/
def NoSurplus (b : DrbdBitmap) : Prop :=
  ∀ i, b.bmBits ≤ i → i < b.bmWords * 64 → b.bit i = false

theorem Gains.noSurplus {new} (h : Gains b b' new) (hb : NoSurplus b)
    (hnew : ∀ i, b.bmBits ≤ i → new i = false) : NoSurplus b' := by
  intro i hi hw
  rw [h.bits] at hi
  rw [DrbdBitmap.bmWords_congr h.bits] at hw
  rw [h.bit, hnew i hi, hb i hi hw, Bool.or_false]

theorem Gains.mergeWord (b : DrbdBitmap) {offset : Nat} (lel : BitVec 64) (hin : offset < b.bmWords) :
    Gains b (mergeWord b offset lel) fun i => decide (i / 64 = offset) && lel.getLsbD (i % 64) where
  bits := rfl
  bit i := by
    show ((b.setWord offset (b.word offset ||| lel)).word (i / 64)).getLsbD (i % 64) = _
    rw [DrbdBitmap.word_setWord]
    by_cases h : i / 64 = offset
    · subst h
      simp [DrbdBitmap.bit, Bool.or_comm]
    · simp [h, DrbdBitmap.bit]
  count := by
    have hw := weight_setWord (b.word offset ||| lel) hin
    have hle := hweightLong_or_le (b.word offset) lel
    have hweight : (Bitmap.mergeWord b offset lel).weight
        = (b.setWord offset (b.word offset ||| lel)).weight := weight_congr rfl rfl
    unfold Recounted
    rw [hweight]
    simp only [Bitmap.mergeWord]
    omega

theorem Gains.mergeWords (src : Nat → BitVec 64) (n : Nat) (b : DrbdBitmap) (offset : Nat)
    (hin : offset + n ≤ b.bmWords) :
    Gains b (mergeWords b offset ((List.range' offset n).map src)) fun i =>
      decide (offset ≤ i / 64 ∧ i / 64 < offset + n) && (src (i / 64)).getLsbD (i % 64) := by
  induction n generalizing b offset with
  | zero =>
      refine (Gains.refl b).congr fun i => ?_
      rw [decide_eq_false (by omega), Bool.false_and]
  | succ n ih =>
      rw [List.range'_succ, List.map_cons, Bitmap.mergeWords]
      have hone := Gains.mergeWord b (src offset) (show offset < b.bmWords by omega)
      have hrest := ih (Bitmap.mergeWord b offset (src offset)) (offset + 1)
        (by rw [DrbdBitmap.bmWords_congr hone.bits]; omega)
      refine (hone.trans hrest).congr fun i => ?_
      by_cases h : i / 64 = offset
      · rw [decide_eq_true h, decide_eq_false (by omega), decide_eq_true (by omega), h]
        simp
      · rw [decide_eq_false h, Bool.false_and, Bool.false_or]
        congr 1
        exact decide_eq_decide.2 (by omega)

theorem Gains.mergeBuffer (b : DrbdBitmap) {offset : Nat} (buffer : List (BitVec 64))
    (hin : offset + buffer.length ≤ b.bmWords) :
    Gains b (Bitmap.mergeWords b offset buffer) fun i =>
      decide (offset ≤ i / 64 ∧ i / 64 < offset + buffer.length)
        && (buffer.getD (i / 64 - offset) 0).getLsbD (i % 64) := by
  have hbuffer : (List.range' offset buffer.length).map (fun w => buffer.getD (w - offset) 0) = buffer := by
    refine List.ext_getElem (by simp) fun k hk hk' => ?_
    simp [hk']
  have h := Gains.mergeWords (fun w => buffer.getD (w - offset) 0) buffer.length b offset hin
  rwa [hbuffer] at h

theorem getLsbD_usedBits (n : Nat) {k : Nat} (hk : k < 64) :
    (BitVec.ofNat 64 (2 ^ (n % 64) - 1)).getLsbD k = decide (k < n % 64) := by
  rw [BitVec.getLsbD_ofNat, Nat.testBit_two_pow_sub_one, decide_eq_true hk, Bool.true_and]

/-- Nothing is cleared where nothing is surplus. -/
theorem Gains.clearSurplus (hb : NoSurplus b) :
    Gains b { (bmClearSurplus b).1 with bmSet := (bmClearSurplus b).1.bmSet - (bmClearSurplus b).2 }
      fun _ => false := by
  unfold bmClearSurplus
  dsimp only
  split
  · exact ⟨rfl, fun _ => rfl, rfl⟩
  rename_i hmask
  -- the masked word is the word itself: above the mask there are only zeros
  have hmod : b.bmBits % 64 ≠ 0 := fun h0 => hmask (by rw [h0]; rfl)
  have hword : b.word (b.bmBits / 64) &&& BitVec.ofNat 64 (2 ^ (b.bmBits % 64) - 1)
      = b.word (b.bmBits / 64) := by
    apply BitVec.eq_of_getLsbD_eq
    intro k hk
    rw [BitVec.getLsbD_and, getLsbD_usedBits _ hk]
    by_cases hlow : k < b.bmBits % 64
    · rw [decide_eq_true hlow, Bool.and_true]
    · have hzero := hb (b.bmBits / 64 * 64 + k) (by omega) (by unfold DrbdBitmap.bmWords; omega)
      rw [DrbdBitmap.bit, show (b.bmBits / 64 * 64 + k) / 64 = b.bmBits / 64 by omega,
        show (b.bmBits / 64 * 64 + k) % 64 = k by omega] at hzero
      rw [hzero, Bool.false_and]
  have hcleared := hweightLong_mask (b.word (b.bmBits / 64)) (BitVec.ofNat 64 (2 ^ (b.bmBits % 64) - 1))
  rw [hword] at hcleared ⊢
  have hsame : (b.setWord (b.bmBits / 64) (b.word (b.bmBits / 64))).word = b.word :=
    Function.update_eq_self _ _
  refine ⟨rfl, fun i => ?_, ?_⟩
  · simp only [DrbdBitmap.bit, hsame, Bool.false_or]
  · have hweight := @weight_congr b { b.setWord (b.bmBits / 64) (b.word (b.bmBits / 64)) with
      bmSet := b.bmSet - hweightLong (b.word (b.bmBits / 64) &&& ~~~BitVec.ofNat 64 (2 ^ (b.bmBits % 64) - 1)) }
      rfl hsame
    unfold Recounted
    refine Eq.trans (congrArg (· + (b.weight : Int)) ?_) (congrArg (fun n : Nat => (b.bmSet : Int) + n) hweight.symm)
    show ((b.bmSet - _ : Nat) : Int) = b.bmSet
    omega

theorem bmBits_bmClearSurplus (b : DrbdBitmap) : (bmClearSurplus b).1.bmBits = b.bmBits := by
  unfold bmClearSurplus
  dsimp only
  split <;> rfl

theorem bit_bmClearSurplus (b : DrbdBitmap) (i : Nat) :
    (bmClearSurplus b).1.bit i = (b.bit i && !decide (b.bmBits ≤ i ∧ i < b.bmWords * 64)) := by
  have hwords : b.bmWords = (b.bmBits + 63) / 64 := rfl
  unfold bmClearSurplus
  dsimp only
  split
  · rename_i hmask
    have hmod := getLsbD_usedBits b.bmBits (show 0 < 64 by decide)
    rw [hmask] at hmod
    have hmod : ¬ 0 < b.bmBits % 64 := of_decide_eq_false (hmod.symm.trans BitVec.getLsbD_zero)
    rw [decide_eq_false (by omega)]
    simp
  · rename_i hmask
    have hmod : b.bmBits % 64 ≠ 0 := fun h0 => hmask (by rw [h0]; rfl)
    rw [DrbdBitmap.bit, DrbdBitmap.word_setWord]
    split
    · rename_i hw
      rw [BitVec.getLsbD_and, getLsbD_usedBits _ (Nat.mod_lt _ (by decide)), DrbdBitmap.bit, hw]
      congr 1
      rw [← decide_not]
      exact decide_eq_decide.2 (by omega)
    · rename_i hw
      rw [decide_eq_false (by omega)]
      simp [DrbdBitmap.bit]

/-- A merge of the words of a bitmap of the same size adds its bits in these words. -/
theorem Gains.mergeLel {src : DrbdBitmap} (hb : NoSurplus b) (hsrc : NoSurplus src)
    (hbits : src.bmBits = b.bmBits) {offset n : Nat} (hin : offset + n ≤ b.bmWords) :
    Gains b (drbdBmMergeLel b offset (drbdBmGetLel src offset n)) fun i =>
      decide (offset ≤ i / 64 ∧ i / 64 < offset + n) && src.bit i := by
  unfold drbdBmMergeLel drbdBmGetLel
  have hmerge := Gains.mergeWords src.word n b offset hin
  split
  · rename_i hnil
    have hn : n = 0 := by simpa using hnil
    refine (Gains.refl b).congr fun i => ?_
    rw [decide_eq_false (by omega), Bool.false_and]
  · dsimp only
    split
    · refine (hmerge.trans (Gains.clearSurplus ?_)).congr fun i => by rw [Bool.or_false]; rfl
      refine hmerge.noSurplus hb fun i hi => ?_
      by_cases hw : i < src.bmWords * 64
      · rw [show (src.word (i / 64)).getLsbD (i % 64) = src.bit i from rfl,
          hsrc i (by omega) hw, Bool.and_false]
      · rw [DrbdBitmap.bmWords_congr hbits] at hw
        rw [decide_eq_false (by omega), Bool.false_and]
    · exact hmerge

/-! ## The count -/

theorem weight_eq_countP (hb : NoSurplus b) : b.weight = (List.range b.bmBits).countP b.bit := by
  have hle : b.bmBits ≤ b.bmWords * 64 := by unfold DrbdBitmap.bmWords; omega
  rw [countP_range_eq_sum, weight_eq_sum, ← Nat.add_sub_cancel' hle, sum_range_add]
  refine Nat.add_eq_left.2 (sum_eq_zero fun k hk => ?_)
  have hk := mem_range.1 hk
  rw [hb (b.bmBits + k) (by omega) (by omega)]
  rfl

end Drbd.Bitmap
