import Drbd.Bitmap.Lemmas.Weight

/-!
# The change flags of the pages

A page whose flags are down has not changed since they were put down: every flip raises one of them.
-/

namespace Drbd.Bitmap

variable {b b' : DrbdBitmap}

/-- A page that is unchanged now was so before, and has kept its bits. -/
def Marks (b b' : DrbdBitmap) : Prop :=
  ∀ p, b'.testPageUnchanged p = true →
    b.testPageUnchanged p = true ∧ ∀ i, i / bitsPerPage = p → b'.bit i = b.bit i

theorem Marks.refl (b : DrbdBitmap) : Marks b b := fun _ h => ⟨h, fun _ _ => rfl⟩

@[simp] theorem DrbdBitmap.testPageUnchanged_setPageNeedWriteout (page p : Nat) :
    (b.setPageNeedWriteout page).testPageUnchanged p
      = (b.testPageUnchanged p && !decide (p = page)) := by
  by_cases h : p = page <;> simp [testPageUnchanged, setPageNeedWriteout, h]

@[simp] theorem DrbdBitmap.testPageUnchanged_setPageLazyWriteout (page p : Nat) :
    (b.setPageLazyWriteout page).testPageUnchanged p
      = (b.testPageUnchanged p && !decide (p = page)) := by
  by_cases h : p = page <;> simp [testPageUnchanged, setPageLazyWriteout, h]

/-! ## Changing a range -/

/-- The same within the loop, where the flips in the current page are still in `c`. -/
structure LoopMarks (b : DrbdBitmap) (val : Bool) (l : ChangeLoop) : Prop where
  sign : if val then 0 ≤ l.c else l.c ≤ 0
  start : l.lastPage = none → l.c = 0
  marks : ∀ p, l.b.testPageUnchanged p = true → (l.lastPage = some p → l.c = 0) →
    b.testPageUnchanged p = true ∧ ∀ i, i / bitsPerPage = p → l.b.bit i = b.bit i

theorem LoopMarks.leave {val : Bool} {l : ChangeLoop} (h : LoopMarks b val l) : Marks b l.leavePage.b := by
  intro p hp
  have hbit : ∀ i, l.leavePage.b.bit i = l.b.bit i := l.bit_leavePage
  have hflag : l.b.testPageUnchanged p = true ∧ (l.lastPage = some p → l.c = 0) := by
    unfold ChangeLoop.leavePage at hp
    split at hp
    · rename_i hnone
      exact ⟨hp, fun hsome => by rw [hnone] at hsome; cases hsome⟩
    · rename_i page hpage
      dsimp only at hp
      split at hp
      · rw [DrbdBitmap.testPageUnchanged_setPageLazyWriteout, Bool.and_eq_true] at hp
        refine ⟨hp.1, fun hsome => absurd ?_ (show ¬ p = page by simpa using hp.2)⟩
        rw [hpage] at hsome
        exact (Option.some.inj hsome).symm
      · split at hp
        · rw [DrbdBitmap.testPageUnchanged_setPageNeedWriteout, Bool.and_eq_true] at hp
          refine ⟨hp.1, fun hsome => absurd ?_ (show ¬ p = page by simpa using hp.2)⟩
          rw [hpage] at hsome
          exact (Option.some.inj hsome).symm
        · exact ⟨hp, fun _ => by omega⟩
  obtain ⟨hold, hsame⟩ := h.marks p hflag.1 hflag.2
  exact ⟨hold, fun i hi => (hbit i).trans (hsame i hi)⟩

theorem testPageUnchanged_putBit (n : Nat) (val : Bool) (p : Nat) :
    (b.putBit n val).testPageUnchanged p = b.testPageUnchanged p := rfl

theorem LoopMarks.change {val : Bool} {l : ChangeLoop} (h : LoopMarks b val l) (n : Nat) :
    LoopMarks b val (l.change val n) := by
  -- the page is entered
  obtain ⟨l₁, hl₁⟩ : ∃ l₁ : ChangeLoop, (if l.lastPage = some (n / bitsPerPage) then l
    else { l.leavePage with lastPage := some (n / bitsPerPage) }) = l₁ := ⟨_, rfl⟩
  have h₁ : LoopMarks b val l₁ ∧ l₁.lastPage = some (n / bitsPerPage) := by
    rw [← hl₁]
    split
    · exact ⟨h, by assumption⟩
    · have hc : l.leavePage.c = 0 := by
        unfold ChangeLoop.leavePage
        split <;> rfl
      refine ⟨⟨?_, fun hnone => (by cases hnone), fun p hp _ => h.leave p hp⟩, rfl⟩
      dsimp only
      rw [hc]
      cases val <;> simp
  obtain ⟨h₁, hpage⟩ := h₁
  have hchange : l.change val n = { l₁ with
      b := l₁.b.putBit n val
      c := if val then (if l₁.b.bit n then l₁.c else l₁.c + 1)
        else (if l₁.b.bit n then l₁.c - 1 else l₁.c) } := by
    rw [← hl₁]
    rfl
  have hsign := h₁.sign
  rw [hchange]
  refine ⟨?_, fun hnone => (by rw [hpage] at hnone; cases hnone), fun p hp hc => ?_⟩
  · cases val with
    | true =>
        simp only [if_true] at hsign ⊢
        split <;> omega
    | false =>
        simp only [Bool.false_eq_true, if_false] at hsign ⊢
        split <;> omega
  · rw [testPageUnchanged_putBit] at hp
    dsimp only at hc ⊢
    -- no flip so far in this page means none now
    have hkeep : l₁.lastPage = some p → l₁.c = 0 ∧ l₁.b.bit n = val := by
      intro hlast
      have hc := hc hlast
      cases val with
      | true =>
          simp only [if_true] at hsign hc
          cases hbit : l₁.b.bit n with
          | true => rw [hbit, if_pos rfl] at hc; exact ⟨hc, rfl⟩
          | false => rw [hbit, if_neg (by decide)] at hc; omega
      | false =>
          simp only [Bool.false_eq_true, if_false] at hsign hc
          cases hbit : l₁.b.bit n with
          | true => rw [hbit, if_pos rfl] at hc; omega
          | false => rw [hbit, if_neg (by decide)] at hc; exact ⟨hc, rfl⟩
    obtain ⟨hold, hsame⟩ := h₁.marks p hp fun hlast => (hkeep hlast).1
    refine ⟨hold, fun i hi => ?_⟩
    rw [DrbdBitmap.bit_putBit]
    split
    · rename_i hin
      subst hin
      rw [← hsame i hi]
      exact (hkeep (by rw [hpage, hi])).2.symm
    · exact hsame i hi

theorem LoopMarks.foldl {val : Bool} (ns : List Nat) {l : ChangeLoop} (h : LoopMarks b val l) :
    LoopMarks b val (ns.foldl (ChangeLoop.change val) l) := by
  induction ns generalizing l with
  | nil => exact h
  | cons n ns ih => exact ih (h.change n)

theorem Marks.bmChangeBitsTo (b : DrbdBitmap) (s e : Nat) (val : Bool) :
    Marks b (bmChangeBitsTo b s e val).1 := by
  unfold Bitmap.bmChangeBitsTo
  split
  · exact .refl b
  · have hstart : LoopMarks b val ⟨b, none, 0, 0⟩ :=
      ⟨by cases val <;> simp, fun _ => rfl, fun p hp _ => ⟨hp, fun _ _ => rfl⟩⟩
    exact (hstart.foldl _).leave

/-! ## Clearing what is unchanged -/

theorem foldl_clearIfUnchanged (b : DrbdBitmap) (n : Nat) :
    let r := (List.range n).foldl clearIfUnchanged b
    r.bmBits = b.bmBits ∧ (∀ p, n ≤ p → r.testPageUnchanged p = b.testPageUnchanged p) ∧
      ∀ w, r.word w = if w / 512 < n ∧ w < b.bmWords ∧ b.testPageUnchanged (w / 512) = true then 0
        else b.word w := by
  induction n with
  | zero => exact ⟨rfl, fun _ _ => rfl, fun w => (if_neg fun h => absurd h.1 (Nat.not_lt_zero _)).symm⟩
  | succ n ih =>
      rw [List.range_succ, List.foldl_append, List.foldl_cons, List.foldl_nil]
      generalize (List.range n).foldl clearIfUnchanged b = r at ih ⊢
      obtain ⟨hbits, hflags, hword⟩ := ih
      have hwords : r.bmWords = b.bmWords := DrbdBitmap.bmWords_congr hbits
      have hflag := hflags n (le_refl n)
      dsimp only
      unfold clearIfUnchanged
      by_cases hp : r.testPageUnchanged n = true
      · rw [if_pos hp]
        refine ⟨hbits, fun p hle => ?_, fun w => ?_⟩
        · rw [DrbdBitmap.testPageUnchanged_setPageNeedWriteout, decide_eq_false (by omega), Bool.not_false,
            Bool.and_true]
          exact hflags p (by omega)
        · show (if w / 512 = n ∧ w < r.bmWords then 0 else r.word w) = _
          rw [hwords, hword]
          by_cases hin : w / 512 = n
          · rw [if_neg (show ¬ (w / 512 < n ∧ _) by omega), hin, ← hflag, hp]
            simp
          · have hiff : w / 512 < n + 1 ↔ w / 512 < n := by omega
            simp only [hin, hiff, false_and, if_false]
      · rw [if_neg hp]
        refine ⟨hbits, fun p hle => hflags p (by omega), fun w => ?_⟩
        rw [hword]
        by_cases hin : w / 512 = n
        · rw [hflag] at hp
          rw [if_neg (by omega), if_neg fun h => hp (hin ▸ h.2.2)]
        · have hiff : w / 512 < n + 1 ↔ w / 512 < n := by omega
          simp only [hiff]

theorem bmBits_bmMemsetUnchanged (b : DrbdBitmap) : (bmMemsetUnchanged b).bmBits = b.bmBits :=
  (foldl_clearIfUnchanged b _).1

theorem word_bmMemsetUnchanged (b : DrbdBitmap) (w : Nat) :
    (bmMemsetUnchanged b).word w
      = if w < b.bmWords ∧ b.testPageUnchanged (w / 512) = true then 0 else b.word w := by
  have hin : w < b.bmWords → w / 512 < b.bmNumberOfPages := by
    unfold DrbdBitmap.bmNumberOfPages
    omega
  rw [bmMemsetUnchanged, (foldl_clearIfUnchanged b _).2.2 w]
  refine if_congr ?_ rfl rfl
  exact ⟨fun h => h.2, fun h => ⟨hin h.1, h⟩⟩

theorem bit_bmMemsetUnchanged (b : DrbdBitmap) {i : Nat} (hi : i < b.bmBits) :
    (bmMemsetUnchanged b).bit i
      = if b.testPageUnchanged (i / bitsPerPage) = true then false else b.bit i := by
  have hword := DrbdBitmap.word_lt_bmWords hi
  have hpage : i / 64 / 512 = i / bitsPerPage := Nat.div_div_eq_div_mul i 64 512
  rw [DrbdBitmap.bit, word_bmMemsetUnchanged, hpage]
  by_cases hp : b.testPageUnchanged (i / bitsPerPage) = true
  · rw [if_pos ⟨hword, hp⟩, if_pos hp]
    exact BitVec.getLsbD_zero
  · rw [if_neg fun h => hp h.2, if_neg hp]
    rfl

end Drbd.Bitmap
