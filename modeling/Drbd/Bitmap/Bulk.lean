import Drbd.Bitmap.Lemmas.Store

/-!
# Many bits at once

The fast path over a range of bits against the single bits, and the clearing of the pages that have
not changed since they were written out.
-/

namespace Drbd.Bitmap

variable {b b' : DrbdBitmap}

/-! ## Setting a range -/

/-- The bits `s` to `e`, one after the other. -/
def setOneByOne (b : DrbdBitmap) (s e : Nat) : DrbdBitmap :=
  (List.range' s (e + 1 - s)).foldl (fun b i => (bmChangeBitsTo b i i true).1) b

theorem Gains.oneByOne (n : Nat) (b : DrbdBitmap) {s : Nat} (hin : s + n ≤ b.bmBits) :
    Gains b ((List.range' s n).foldl (fun b i => (Bitmap.bmChangeBitsTo b i i true).1) b)
      fun i => decide (s ≤ i ∧ i < s + n) := by
  induction n generalizing b s with
  | zero => exact (Gains.refl b).congr fun i => (decide_eq_false (by omega)).symm
  | succ n ih =>
      rw [List.range'_succ, List.foldl_cons]
      have hone := Gains.bmChangeBitsTo b s (show s < b.bmBits by omega) (by omega)
      have hrest := @ih _ (s + 1) (show s + 1 + n ≤ (Bitmap.bmChangeBitsTo b s s true).1.bmBits by
        rw [hone.bits]; omega)
      refine (hone.trans hrest).congr fun i => ?_
      rw [← Bool.decide_or]
      exact decide_eq_decide.2 (by omega)

/-- Bitmaps that gained the same bits are the same, and have the same count. -/
theorem Gains.unique {b₁ b₂ new} (h₁ : Gains b b₁ new) (h₂ : Gains b b₂ new) :
    b₁.word = b₂.word ∧ b₁.bmSet = b₂.bmSet := by
  have hword : b₁.word = b₂.word :=
    funext fun w => DrbdBitmap.word_eq_of_bit fun i _ => by rw [h₁.bit, h₂.bit]
  have hweight := weight_congr (h₁.bits.trans h₂.bits.symm) hword
  have hcount₁ := h₁.count
  have hcount₂ := h₂.count
  unfold Recounted at hcount₁ hcount₂
  exact ⟨hword, by omega⟩

/-! ### Pages that exist -/

/-- The pages that `__bm_change_bits_to` maps, one past the last being a `BUG_ON`. -/
def changeBitsMapped (b : DrbdBitmap) (s e : Nat) : Option DrbdBitmap :=
  let last := if b.bmBits ≤ e then b.bmBits - 1 else e
  if s ≤ last → last / bitsPerPage < b.bmNumberOfPages then some (bmChangeBitsTo b s e true).1 else none

/-- `bm_set_full_words_within_one_page` of a page in `bm_pages`. -/
def fillWordsMapped (b : DrbdBitmap) (page first last : Nat) : Option DrbdBitmap :=
  if page < b.bmNumberOfPages ∧ last ≤ 512 then some (bmSetFullWordsWithinOnePage b page first last)
  else none

def fillPageMapped : DrbdBitmap × Nat → Nat → Option (DrbdBitmap × Nat)
  | (b, firstWord), page => (fillWordsMapped b page firstWord 512).map fun b => (b, 0)

/-- `_drbd_bm_set_bits` where no page past the last one may be mapped. -/
def drbdBmSetBitsMapped (b : DrbdBitmap) (s e : Nat) : Option DrbdBitmap :=
  if e - s ≤ 3 * bitsPerLong then changeBitsMapped b s e
  else
    let sl := (s + 63) / 64 * 64
    let el := (e + 1) / 64 * 64
    let firstPage := sl / bitsPerPage
    let lastPage := el / bitsPerPage
    let lastWord := el / 64 % 512
    (if sl = 0 then some b else changeBitsMapped b s (sl - 1)).bind fun b =>
    ((List.range' firstPage (lastPage - firstPage)).foldlM fillPageMapped (b, sl / 64 % 512)).bind fun r =>
    (if lastWord = 0 then some r.1 else fillWordsMapped r.1 lastPage r.2 lastWord).bind fun b =>
    if el ≤ e then changeBitsMapped b el e else some b

theorem DrbdBitmap.bmNumberOfPages_congr (h : b'.bmBits = b.bmBits) :
    b'.bmNumberOfPages = b.bmNumberOfPages := by
  rw [bmNumberOfPages, bmNumberOfPages, bmWords_congr h]

theorem DrbdBitmap.page_lt_bmNumberOfPages {i : Nat} (hi : i < b.bmBits) :
    i / bitsPerPage < b.bmNumberOfPages := by
  unfold bmNumberOfPages bmWords bitsPerPage
  omega

theorem changeBitsMapped_eq {s e : Nat} (he : e < b.bmBits) :
    changeBitsMapped b s e = some (bmChangeBitsTo b s e true).1 := by
  unfold changeBitsMapped
  dsimp only
  rw [if_neg (show ¬ b.bmBits ≤ e by omega)]
  exact if_pos fun _ => DrbdBitmap.page_lt_bmNumberOfPages he

theorem bmBits_bmSetFullWords (b : DrbdBitmap) (page first last : Nat) :
    (bmSetFullWordsWithinOnePage b page first last).bmBits = b.bmBits := by
  have hfold : ∀ (ns : List Nat) (r : DrbdBitmap × Nat), (ns.foldl (fillWord page) r).1.bmBits = r.1.bmBits := by
    intro ns
    induction ns with
    | nil => exact fun _ => rfl
    | cons n ns ih => exact fun r => ih (fillWord page r n)
  have h := hfold (List.range' first (last - first)) (b, 0)
  unfold bmSetFullWordsWithinOnePage
  generalize (List.range' first (last - first)).foldl (fillWord page) (b, 0) = r at h ⊢
  dsimp only
  split
  · exact h
  · exact h

theorem fillPageMapped_foldlM (n p fw : Nat) (b : DrbdBitmap) (hin : p + n ≤ b.bmNumberOfPages) :
    (List.range' p n).foldlM fillPageMapped (b, fw) = some ((List.range' p n).foldl fillPage (b, fw)) ∧
      ((List.range' p n).foldl fillPage (b, fw)).1.bmBits = b.bmBits := by
  induction n generalizing p fw b with
  | zero => exact ⟨rfl, rfl⟩
  | succ n ih =>
      have hbits := bmBits_bmSetFullWords b p fw 512
      have hpage : fillPageMapped (b, fw) p = some (fillPage (b, fw) p) := by
        simp only [fillPageMapped, fillWordsMapped, fillPage]
        rw [if_pos ⟨by omega, le_refl _⟩]
        rfl
      obtain ⟨hrest, hkeep⟩ := ih (p + 1) 0 (bmSetFullWordsWithinOnePage b p fw 512)
        (by rw [DrbdBitmap.bmNumberOfPages_congr hbits]; omega)
      rw [List.range'_succ, List.foldlM_cons, List.foldl_cons, hpage]
      exact ⟨hrest, hkeep.trans hbits⟩

theorem drbdBmSetBitsMapped_eq {s e : Nat} (hse : s ≤ e) (he : e < b.bmBits) :
    drbdBmSetBitsMapped b s e = some (drbdBmSetBitsBulk b s e) := by
  unfold drbdBmSetBitsMapped drbdBmSetBitsBulk
  split
  · exact changeBitsMapped_eq he
  rename_i hfar
  simp only [bitsPerLong] at hfar
  generalize hsl : (s + 63) / 64 * 64 = sl
  generalize hel : (e + 1) / 64 * 64 = el
  have hhead : (if sl = 0 then some b else changeBitsMapped b s (sl - 1))
      = some (if sl = 0 then b else (bmChangeBitsTo b s (sl - 1) true).1) := by
    split
    · rfl
    · exact changeBitsMapped_eq (by omega)
  have hbits : (if sl = 0 then b else (bmChangeBitsTo b s (sl - 1) true).1).bmBits = b.bmBits := by
    split
    · rfl
    · exact bmBits_bmChangeBitsTo b s _ true
  dsimp only
  rw [hhead, Option.bind_some]
  generalize (if sl = 0 then b else (bmChangeBitsTo b s (sl - 1) true).1) = b₁ at hbits ⊢
  have hpages : b₁.bmNumberOfPages = b.bmNumberOfPages := DrbdBitmap.bmNumberOfPages_congr hbits
  -- el ends at a page that exists, or starts the first that does not
  have hend : el / bitsPerPage ≤ b.bmNumberOfPages ∧
      (el / 64 % 512 ≠ 0 → el / bitsPerPage < b.bmNumberOfPages) := by
    unfold DrbdBitmap.bmNumberOfPages DrbdBitmap.bmWords bitsPerPage
    omega
  have horder : sl / bitsPerPage ≤ el / bitsPerPage := Nat.div_le_div_right (by omega)
  obtain ⟨hloop, hkeep⟩ := fillPageMapped_foldlM (el / bitsPerPage - sl / bitsPerPage) (sl / bitsPerPage)
    (sl / 64 % 512) b₁ (by omega)
  rw [hloop, Option.bind_some]
  generalize (List.range' (sl / bitsPerPage) (el / bitsPerPage - sl / bitsPerPage)).foldl fillPage
    (b₁, sl / 64 % 512) = r at hkeep ⊢
  obtain ⟨b₂, firstWord⟩ := r
  have hpages₂ : b₂.bmNumberOfPages = b.bmNumberOfPages :=
    DrbdBitmap.bmNumberOfPages_congr (hkeep.trans hbits)
  have hlast : (if el / 64 % 512 = 0 then some b₂ else fillWordsMapped b₂ (el / bitsPerPage) firstWord (el / 64 % 512))
      = some (if el / 64 % 512 = 0 then b₂
        else bmSetFullWordsWithinOnePage b₂ (el / bitsPerPage) firstWord (el / 64 % 512)) := by
    split
    · rfl
    · rename_i hword
      exact if_pos ⟨by rw [hpages₂]; exact hend.2 hword, by omega⟩
  have hbits₃ : (if el / 64 % 512 = 0 then b₂
      else bmSetFullWordsWithinOnePage b₂ (el / bitsPerPage) firstWord (el / 64 % 512)).bmBits = b.bmBits := by
    split
    · exact hkeep.trans hbits
    · exact (bmBits_bmSetFullWords _ _ _ _).trans (hkeep.trans hbits)
  dsimp only
  rw [hlast, Option.bind_some]
  split
  · exact changeBitsMapped_eq (by rw [hbits₃]; exact he)
  · rfl

/-! ### The flags of pages outside -/

/-- The pages from `n` on keep their flags. -/
def FlagsKept (b b' : DrbdBitmap) (n : Nat) : Prop :=
  ∀ p, n ≤ p → b'.needWriteout p = b.needWriteout p ∧ b'.lazyWriteout p = b.lazyWriteout p

theorem FlagsKept.refl (b : DrbdBitmap) (n : Nat) : FlagsKept b b n := fun _ _ => ⟨rfl, rfl⟩

theorem FlagsKept.trans {b'' n} (h : FlagsKept b b' n) (h' : FlagsKept b' b'' n) : FlagsKept b b'' n :=
  fun p hp => ⟨(h' p hp).1.trans (h p hp).1, (h' p hp).2.trans (h p hp).2⟩

theorem FlagsKept.need (b : DrbdBitmap) {page n : Nat} (hpage : page < n) :
    FlagsKept b (b.setPageNeedWriteout page) n :=
  fun p _ => ⟨Function.update_of_ne (show p ≠ page by omega) _ _, rfl⟩

theorem FlagsKept.lazy (b : DrbdBitmap) {page n : Nat} (hpage : page < n) :
    FlagsKept b (b.setPageLazyWriteout page) n :=
  fun p _ => ⟨rfl, Function.update_of_ne (show p ≠ page by omega) _ _⟩

theorem FlagsKept.leavePage {l : ChangeLoop} {n : Nat} (hpage : ∀ p, l.lastPage = some p → p < n) :
    FlagsKept l.b l.leavePage.b n := by
  unfold ChangeLoop.leavePage
  split
  · exact .refl _ _
  · rename_i page hlast
    dsimp only
    split
    · exact .lazy l.b (hpage page hlast)
    · split
      · exact .need l.b (hpage page hlast)
      · exact .refl _ _

theorem FlagsKept.foldl {val : Bool} {n : Nat} (ns : List Nat) (hns : ∀ i ∈ ns, i / bitsPerPage < n)
    (l : ChangeLoop) (hpage : ∀ p, l.lastPage = some p → p < n) :
    FlagsKept l.b (ns.foldl (ChangeLoop.change val) l).leavePage.b n := by
  induction ns generalizing l with
  | nil => exact .leavePage hpage
  | cons i ns ih =>
      have hi : i / bitsPerPage < n := hns i List.mem_cons_self
      have hone : FlagsKept l.b (l.change val i).b n ∧ ∀ p, (l.change val i).lastPage = some p → p < n := by
        unfold ChangeLoop.change
        dsimp only
        split
        · exact ⟨.refl _ _, hpage⟩
        · refine ⟨FlagsKept.leavePage hpage, fun p hp => ?_⟩
          cases hp
          exact hi
      exact hone.1.trans (ih (fun j hj => hns j (List.mem_cons_of_mem _ hj)) _ hone.2)

theorem FlagsKept.bmChangeBitsTo (b : DrbdBitmap) (s e : Nat) (val : Bool) :
    FlagsKept b (bmChangeBitsTo b s e val).1 b.bmNumberOfPages := by
  unfold Bitmap.bmChangeBitsTo
  split
  · exact .refl b _
  dsimp only
  refine FlagsKept.foldl _ (fun i hi => ?_) ⟨b, none, 0, 0⟩ (fun p hp => by cases hp)
  rw [List.mem_range'_1] at hi
  refine DrbdBitmap.page_lt_bmNumberOfPages ?_
  split at hi <;> omega

theorem FlagsKept.fillWords (b : DrbdBitmap) {page n : Nat} (first last : Nat) (hpage : page < n) :
    FlagsKept b (bmSetFullWordsWithinOnePage b page first last) n := by
  obtain ⟨_, hneed, hlazy, _⟩ := foldl_fillWord_marks page (last - first) first b 0
  unfold bmSetFullWordsWithinOnePage
  generalize (List.range' first (last - first)).foldl (fillWord page) (b, 0) = r at hneed hlazy ⊢
  have hfold : FlagsKept b r.1 n := fun p _ => ⟨by rw [hneed], by rw [hlazy]⟩
  dsimp only
  split
  · exact hfold
  · exact hfold.trans (.lazy r.1 hpage)

section

variable {n : Nat}

/-- The size stays, and the flags of the pages that do not exist. -/
def Outside (n : Nat) (b b' : DrbdBitmap) : Prop :=
  b.bmNumberOfPages = n → b'.bmNumberOfPages = n ∧ FlagsKept b b' n

theorem Outside.trans {b''} (h : Outside n b b') (h' : Outside n b' b'') : Outside n b b'' :=
  fun hb => ⟨(h' (h hb).1).1, (h hb).2.trans (h' (h hb).1).2⟩

theorem Outside.changeBits {s e : Nat} (h : changeBitsMapped b s e = some b') : Outside n b b' := by
  have hb' : (bmChangeBitsTo b s e true).1 = b' := Option.some.inj (Option.ite_none_right_eq_some.1 h).2
  subst hb'
  rintro rfl
  exact ⟨DrbdBitmap.bmNumberOfPages_congr (bmBits_bmChangeBitsTo b s e true), .bmChangeBitsTo b s e true⟩

theorem Outside.fillWords {page first last : Nat} (h : fillWordsMapped b page first last = some b') :
    Outside n b b' := by
  unfold fillWordsMapped at h
  split at h
  · rename_i hpage
    cases h
    rintro rfl
    exact ⟨DrbdBitmap.bmNumberOfPages_congr (bmBits_bmSetFullWords b page first last),
      .fillWords b first last hpage.1⟩
  · cases h

theorem Outside.fillPages {ps : List Nat} {fw : Nat} {r : DrbdBitmap × Nat}
    (h : ps.foldlM fillPageMapped (b, fw) = some r) : Outside n b r.1 := by
  induction ps generalizing b fw with
  | nil =>
      cases h
      exact fun hb => ⟨hb, .refl b n⟩
  | cons p ps ih =>
      rw [List.foldlM_cons] at h
      obtain ⟨q, hone, hrest⟩ := Option.bind_eq_some_iff.1 h
      obtain ⟨b₁, hfill, rfl⟩ := Option.map_eq_some_iff.1 hone
      exact (Outside.fillWords hfill).trans (ih hrest)

theorem Outside.setBits {s e : Nat} (h : drbdBmSetBitsMapped b s e = some b') : Outside n b b' := by
  have hkeep : ∀ b : DrbdBitmap, Outside n b b := fun b hb => ⟨hb, .refl b n⟩
  unfold drbdBmSetBitsMapped at h
  split at h
  · exact .changeBits h
  dsimp only at h
  obtain ⟨b₁, hhead, h⟩ := Option.bind_eq_some_iff.1 h
  obtain ⟨r, hpages, h⟩ := Option.bind_eq_some_iff.1 h
  obtain ⟨b₃, hlast, h⟩ := Option.bind_eq_some_iff.1 h
  have h₁ : Outside n b b₁ := by
    split at hhead
    · cases hhead
      exact hkeep b
    · exact .changeBits hhead
  have h₃ : Outside n r.1 b₃ := by
    split at hlast
    · cases hlast
      exact hkeep r.1
    · exact .fillWords hlast
  refine ((h₁.trans (.fillPages hpages)).trans h₃).trans ?_
  split at h
  · exact .changeBits h
  · cases h
    exact hkeep b'

end

theorem Gains.word_outside {s e w : Nat} (h : Gains b b' fun i => decide (s ≤ i ∧ i ≤ e))
    (he : e < b.bmBits) (hw : b.bmWords ≤ w) : b'.word w = b.word w := by
  refine DrbdBitmap.word_eq_of_bit fun i hi => ?_
  unfold DrbdBitmap.bmWords at hw
  rw [h.bit, decide_eq_false (by omega), Bool.false_or]

/-- The fast path sets what the single bits set, and counts them so; it maps and changes nothing past the end,
and a page in which a bit changed is marked. -/
theorem bulk_set_eq_one_by_one (b : DrbdBitmap) (s e : Nat) (hse : s ≤ e) (he : e < b.bmBits) :
    (drbdBmSetBitsBulk b s e).word = (setOneByOne b s e).word ∧
    (drbdBmSetBitsBulk b s e).bmSet = (setOneByOne b s e).bmSet ∧
    drbdBmSetBitsMapped b s e = some (drbdBmSetBitsBulk b s e) ∧
    (∀ w, b.bmWords ≤ w → (drbdBmSetBitsBulk b s e).word w = b.word w) ∧
    (∀ p, b.bmNumberOfPages ≤ p → (drbdBmSetBitsBulk b s e).needWriteout p = b.needWriteout p ∧
      (drbdBmSetBitsBulk b s e).lazyWriteout p = b.lazyWriteout p) ∧
    ∀ i, (drbdBmSetBitsBulk b s e).bit i ≠ b.bit i →
      (drbdBmSetBitsBulk b s e).testPageUnchanged (i / bitsPerPage) = false := by
  have hbulk := Gains.setBitsBulk b (e := e) (s := s) he
  have hsingle : Gains b (setOneByOne b s e) fun i => decide (s ≤ i ∧ i ≤ e) := by
    refine (Gains.oneByOne (e + 1 - s) b (by omega)).congr fun i => ?_
    exact decide_eq_decide.2 (by omega)
  obtain ⟨hword, hset⟩ := hbulk.unique hsingle
  have hmapped := drbdBmSetBitsMapped_eq hse he
  refine ⟨hword, hset, hmapped, fun w => hbulk.word_outside he, (Outside.setBits hmapped rfl).2, fun i hne => ?_⟩
  by_contra hflag
  rw [Bool.not_eq_false] at hflag
  exact hne ((Marks.setBitsBulk b s e _ hflag).2 i rfl)

/-- The whole of a bitmap that fills its only page. -/
theorem bulk_set_eq_one_by_one_full_page :
    drbdBmSetBitsMapped ⟨32768, 0, fun _ => 0, fun _ => false, fun _ => false⟩ 0 32767
      = some (drbdBmSetBitsBulk ⟨32768, 0, fun _ => 0, fun _ => false, fun _ => false⟩ 0 32767) :=
  (bulk_set_eq_one_by_one _ 0 32767 (by decide) (by decide)).2.2.1

/-! ## Clearing what is unchanged -/

theorem ulongOfInt_eq_iff {c : Nat} (hc : c < 2 ^ 63) : ulongOfInt c = c ↔ c < 2 ^ 31 := by
  unfold ulongOfInt
  rw [BitVec.toNat_signExtend, BitVec.toNat_setWidth, BitVec.toNat_ofNat, BitVec.msb_eq_decide,
    BitVec.toNat_ofNat]
  constructor
  · intro h
    split at h
    · omega
    · rename_i hmsb
      simp only [decide_eq_true_eq] at hmsb
      omega
  · intro h
    rw [if_neg (by simp only [decide_eq_true_eq]; omega)]
    omega

theorem countP_range_succ_clear {p : Nat → Bool} {n : Nat} (h : p n = false) :
    (List.range' 0 (n + 1)).countP p = (List.range n).countP p := by
  rw [← List.range_eq_range', List.range_succ, List.countP_append, List.countP_singleton, h]
  simp

/-- The bits that are kept: those of the pages that have changed. -/
def keptBits (b : DrbdBitmap) : Nat :=
  (List.range b.bmBits).countP fun i => !b.testPageUnchanged (i / bitsPerPage) && b.bit i

theorem countP_bmMemsetUnchanged (b : DrbdBitmap) :
    (List.range b.bmBits).countP (bmMemsetUnchanged b).bit = keptBits b := by
  refine List.countP_congr fun i hi => ?_
  rw [bit_bmMemsetUnchanged b (List.mem_range.1 hi)]
  cases b.testPageUnchanged (i / bitsPerPage) <;> simp

theorem drbdBmCountBits_all (b : DrbdBitmap) :
    drbdBmCountBits b 0 b.bmBits = if b.bmBits % bitsPerPage = 0 then none
      else some ((List.range b.bmBits).countP b.bit) := by
  unfold drbdBmCountBits
  have hiff : 0 ≤ b.bmBits ∧ b.bmNumberOfPages ≤ b.bmBits / bitsPerPage ↔ b.bmBits % bitsPerPage = 0 := by
    unfold DrbdBitmap.bmNumberOfPages DrbdBitmap.bmWords bitsPerPage
    omega
  refine if_congr hiff rfl (congrArg some ?_)
  rw [Nat.sub_zero, countP_range_succ_clear (by simp)]
  refine List.countP_congr fun i hi => ?_
  rw [decide_eq_true (List.mem_range.1 hi), Bool.true_and]

/-- What clearing should leave. -/
structure ClearsUnchanged (b b' : DrbdBitmap) : Prop where
  bits : b'.bmBits = b.bmBits
  word : ∀ w, b'.word w = if w < b.bmWords ∧ b.testPageUnchanged (w / 512) = true then 0 else b.word w
  count : b'.bmSet = (List.range b'.bmBits).countP b'.bit

/-- It returns with the right bits and the right count exactly if the bits do not fill the last page, and as
many as an `int` can count stay set. -/
theorem drbd_bm_clear_unchanged_iff (b : DrbdBitmap) (hcap : b.bmBits ≤ 2 ^ 48) :
    (∃ b', drbdBmClearUnchanged b = some b' ∧ ClearsUnchanged b b') ↔
      b.bmBits = 0 ∧ b.bmSet = 0 ∨ b.bmBits % bitsPerPage ≠ 0 ∧ keptBits b < 2 ^ 31 := by
  have hbits := bmBits_bmMemsetUnchanged b
  unfold drbdBmClearUnchanged
  by_cases hzero : b.bmBits = 0
  · rw [if_pos hzero]
    have hempty : (List.range b.bmBits).countP b.bit = 0 := by rw [hzero]; rfl
    constructor
    · rintro ⟨b', hb', h⟩
      cases hb'
      exact .inl ⟨hzero, h.count.trans hempty⟩
    · rintro (⟨_, hset⟩ | ⟨hmod, _⟩)
      · refine ⟨b, rfl, rfl, fun w => (if_neg fun hw => ?_).symm, hset.trans hempty.symm⟩
        have hlt := hw.1
        unfold DrbdBitmap.bmWords at hlt
        omega
      · rw [hzero] at hmod
        exact absurd rfl hmod
  · rw [if_neg hzero]
    dsimp only
    rw [drbdBmCountBits_all, hbits, countP_bmMemsetUnchanged]
    have hkept : keptBits b < 2 ^ 63 := by
      have hle := @List.countP_le_length _ (fun i => !b.testPageUnchanged (i / bitsPerPage) && b.bit i)
        (List.range b.bmBits)
      rw [List.length_range] at hle
      unfold keptBits
      omega
    by_cases hmod : b.bmBits % bitsPerPage = 0
    · rw [if_pos hmod]
      constructor
      · rintro ⟨b', hb', _⟩
        cases hb'
      · rintro (⟨h, _⟩ | ⟨h, _⟩)
        · exact absurd h hzero
        · exact absurd hmod h
    · rw [if_neg hmod]
      -- the count is the weight unless it overflows
      have hcount := countP_bmMemsetUnchanged b
      constructor
      · rintro ⟨b', hb', h⟩
        cases hb'
        exact .inr ⟨hmod, (ulongOfInt_eq_iff hkept).1 (h.count.trans hcount)⟩
      · rintro (⟨h, _⟩ | ⟨_, h⟩)
        · exact absurd h hzero
        · exact ⟨_, rfl, rfl, word_bmMemsetUnchanged b, ((ulongOfInt_eq_iff hkept).2 h).trans hcount.symm⟩

/-- One page short of one word. -/
theorem drbd_bm_clear_unchanged_iff_small :
    ∃ b', drbdBmClearUnchanged ⟨32704, 0, fun _ => 0, fun _ => false, fun _ => false⟩ = some b' ∧
      ClearsUnchanged ⟨32704, 0, fun _ => 0, fun _ => false, fun _ => false⟩ b' := by
  refine (drbd_bm_clear_unchanged_iff ⟨32704, 0, fun _ => 0, fun _ => false, fun _ => false⟩ (by decide)).2
    (.inr ⟨by decide, ?_⟩)
  have hnone : keptBits ⟨32704, 0, fun _ => 0, fun _ => false, fun _ => false⟩ = 0 :=
    List.countP_eq_zero.2 fun i _ => by simp [DrbdBitmap.bit]
  rw [hnone]
  decide

/-- A bitmap that fills its last page: the count maps the page after it. -/
theorem drbd_bm_clear_unchanged_full_page :
    ¬ ∃ b', drbdBmClearUnchanged ⟨32768, 0, fun _ => 0, fun _ => false, fun _ => false⟩ = some b' ∧
      ClearsUnchanged ⟨32768, 0, fun _ => 0, fun _ => false, fun _ => false⟩ b' := by
  have hnone : drbdBmClearUnchanged ⟨32768, 0, fun _ => 0, fun _ => false, fun _ => false⟩ = none := by
    unfold drbdBmClearUnchanged
    rw [if_neg (by decide)]
    dsimp only
    rw [drbdBmCountBits_all, bmBits_bmMemsetUnchanged, if_pos (by decide)]
    rfl
  rw [hnone]
  rintro ⟨b', h, _⟩
  cases h

end Drbd.Bitmap
