import Drbd.Lru.Defs

/-!
# Labels and hash chains

The chains hold every labelled element, and no label twice. So a lookup depends on the labels alone,
and each operation is described by what it does to them.
-/

namespace Drbd.Lru

variable {lc : LruCache}

/-- Some element carries the label, committed or not. -/
def Tracks (lc : LruCache) (enr : Nat) : Prop :=
  ∃ i, (lc.lcElement i).lcNewNumber = enr

/-- Labels are unique, and a labelled element is on the chain of its label. -/
structure Labelled (lc : LruCache) : Prop where
  uniq : ∀ i j, (lc.lcElement i).lcNewNumber = (lc.lcElement j).lcNewNumber →
    (lc.lcElement i).lcNewNumber ≠ LC_FREE → i = j
  hashed : ∀ i, (lc.lcElement i).lcNewNumber ≠ LC_FREE →
    i ∈ lc.lcSlot ((lc.lcElement i).lcNewNumber % lc.nrElements)

/-! ## Lookups -/

theorem lcFindAny_number {enr i} {changing : Bool} (h : lcFindAny lc enr changing = some i) :
    (lc.lcElement i).lcNewNumber = enr := by
  unfold lcFindAny at h
  split at h
  · cases h
  · rename_i j hj
    have hnum := List.find?_some hj
    simp only [decide_eq_true_eq] at hnum
    split at h
    · cases h; exact hnum
    · cases h

theorem Labelled.find {enr i} (hl : Labelled lc) (hf : enr ≠ LC_FREE)
    (hi : (lc.lcElement i).lcNewNumber = enr) : lcFindAny lc enr true = some i := by
  unfold lcFindAny
  have hmem : i ∈ lc.lcSlot (enr % lc.nrElements) := by
    have := hl.hashed i (by rw [hi]; exact hf)
    rwa [hi] at this
  split
  · rename_i hnone
    have := List.find?_eq_none.1 hnone i hmem
    simp [hi] at this
  · rename_i j hj
    have hnum := List.find?_some hj
    simp only [decide_eq_true_eq] at hnum
    have hij : j = i := hl.uniq j i (by rw [hnum, hi]) (by rw [hnum]; exact hf)
    subst hij
    simp

theorem Labelled.find_none {enr} (hl : Labelled lc) (hf : enr ≠ LC_FREE)
    (h : lcFindAny lc enr true = none) : ¬ Tracks lc enr := by
  rintro ⟨i, hi⟩
  rw [hl.find hf hi] at h
  cases h

/-! ## One element changes -/

theorem Labelled.congr {lc lc' : LruCache} (hl : Labelled lc)
    (hnum : ∀ i, (lc'.lcElement i).lcNewNumber = (lc.lcElement i).lcNewNumber)
    (hslot : lc'.lcSlot = lc.lcSlot) (hnr : lc'.nrElements = lc.nrElements) : Labelled lc' where
  uniq i j hij hf := hl.uniq i j (by rwa [hnum, hnum] at hij) (by rwa [hnum] at hf)
  hashed i hf := by rw [hnum] at hf ⊢; rw [hslot, hnr]; exact hl.hashed i hf

/-- Dropping a label keeps the others where they are. -/
theorem Labelled.drop {lc lc' : LruCache} {k : Nat} (hl : Labelled lc)
    (hk : (lc'.lcElement k).lcNewNumber = LC_FREE)
    (hnum : ∀ i, i ≠ k → (lc'.lcElement i).lcNewNumber = (lc.lcElement i).lcNewNumber)
    (hslot : lc'.lcSlot = lc.lcSlot) (hnr : lc'.nrElements = lc.nrElements) : Labelled lc' where
  uniq i j hij hf := by
    have hik : i ≠ k := fun h => hf (by rw [h, hk])
    have hjk : j ≠ k := fun h => hf (by rw [hij, h, hk])
    rw [hnum i hik, hnum j hjk] at hij
    rw [hnum i hik] at hf
    exact hl.uniq i j hij hf
  hashed i hf := by
    have hik : i ≠ k := fun h => hf (by rw [h, hk])
    rw [hnum i hik] at hf ⊢
    rw [hslot, hnr]
    exact hl.hashed i hf

/-- A label nobody has may be given to any element, which moves to the head of its chain. -/
theorem Labelled.relabel {lc lc' : LruCache} {k enr : Nat} (hl : Labelled lc) (hnew : ¬ Tracks lc enr)
    (hk : (lc'.lcElement k).lcNewNumber = enr)
    (hnum : ∀ i, i ≠ k → (lc'.lcElement i).lcNewNumber = (lc.lcElement i).lcNewNumber)
    (hslot : lc'.lcSlot = (lc.rehash k enr).lcSlot) (hnr : lc'.nrElements = lc.nrElements) :
    Labelled lc' where
  uniq i j hij hf := by
    by_cases hi : i = k
    · by_cases hj : j = k
      · rw [hi, hj]
      · rw [hi, hk, hnum j hj] at hij
        exact absurd ⟨j, hij.symm⟩ hnew
    · by_cases hj : j = k
      · rw [hj, hk, hnum i hi] at hij
        exact absurd ⟨i, hij⟩ hnew
      · rw [hnum i hi, hnum j hj] at hij
        rw [hnum i hi] at hf
        exact hl.uniq i j hij hf
  hashed i hf := by
    rw [hslot, hnr]
    by_cases hi : i = k
    · subst hi
      simp [LruCache.rehash, hk]
    · rw [hnum i hi] at hf ⊢
      have hmem := hl.hashed i hf
      simp only [LruCache.rehash]
      split
      · simp [hi, hmem]
      · simp [hi, hmem]

/-! ## What the operations do to elements and chains -/

/-- Only lists, counters and flags may differ. -/
def SameLabels (lc lc' : LruCache) : Prop :=
  lc'.lcElement = lc.lcElement ∧ lc'.lcSlot = lc.lcSlot ∧ lc'.nrElements = lc.nrElements

/-- Element `i` becomes `e`, nothing else changes. -/
def StoresElement (lc lc' : LruCache) (i : Nat) (e : LcElement) : Prop :=
  lc'.lcElement = Function.update lc.lcElement i e ∧ lc'.lcSlot = lc.lcSlot ∧
    lc'.nrElements = lc.nrElements

/-- Element `i` is recycled for the label `enr`. -/
def Recycles (lc lc' : LruCache) (i enr : Nat) : Prop :=
  lc'.lcElement = Function.update lc.lcElement i ⟨1, (lc.lcElement i).lcNumber, enr⟩ ∧
    lc'.lcSlot = (lc.rehash i enr).lcSlot ∧ lc'.nrElements = lc.nrElements

/-- `__lc_get` gives nothing, or an element it found, or a recycled one. -/
theorem lcGetFlags_cases {enr lc' r} {mayChange mayUse : Bool}
    (h : lcGetFlags lc enr mayChange mayUse = some (lc', r)) :
    (r = none ∧ SameLabels lc lc') ∨
    (∃ i, r = some i ∧ lcFindAny lc enr true = some i ∧
      (mayUse = false → (lc.lcElement i).lcNewNumber = (lc.lcElement i).lcNumber) ∧
      StoresElement lc lc' i { lc.lcElement i with refcnt := (lc.lcElement i).refcnt + 1 }) ∨
    (∃ i, r = some i ∧ lcFindAny lc enr true = none ∧ (lc.lcElement i).refcnt = 0 ∧ Recycles lc lc' i enr ∧
      mayChange = true) := by
  unfold lcGetFlags at h
  split at h
  · cases h
  split at h
  · cases h; exact .inl ⟨rfl, rfl, rfl, rfl⟩
  split at h
  · rename_i i hi
    dsimp only at h
    split at h
    · split at h
      · rename_i huse
        cases h
        exact .inr (.inl ⟨i, rfl, hi, fun hno => absurd (huse.symm.trans hno) Bool.noConfusion, rfl, rfl, rfl⟩)
      · cases h; exact .inl ⟨rfl, rfl, rfl, rfl⟩
    · rename_i hcommitted
      cases h
      exact .inr (.inl ⟨i, rfl, hi, fun _ => not_ne_iff.1 hcommitted, rfl, rfl, rfl⟩)
  · rename_i hmiss
    dsimp only at h
    split at h
    · cases h; exact .inl ⟨rfl, rfl, rfl, rfl⟩
    rename_i hchange
    split at h
    · cases h; exact .inl ⟨rfl, rfl, rfl, rfl⟩
    split at h
    · cases h; exact .inl ⟨rfl, rfl, rfl, rfl⟩
    split at h
    · cases h; exact .inl ⟨rfl, rfl, rfl, rfl⟩
    split at h
    · cases h
    · rename_i lc₁ i hprep
      split at h
      · cases h
      · rename_i hidle
        cases h
        unfold lcPrepareForChange at hprep
        split at hprep
        · cases hprep
        · cases hprep
          refine .inr (.inr ⟨i, rfl, hmiss, ?_, ⟨?_, rfl, rfl⟩, by simpa using hchange⟩)
          · simpa [LruCache.setElement, LruCache.moveToBeChanged, LruCache.rehash, LruCache.unlink] using hidle
          · simp [LruCache.setElement, LruCache.moveToBeChanged, LruCache.rehash, LruCache.unlink]

/-- `lc_get` gives nothing, or a committed element it found, or a recycled one. -/
theorem lcGet_cases {enr lc' r} (h : lcGet lc enr = some (lc', r)) :
    (r = none ∧ SameLabels lc lc') ∨
    (∃ i, r = some i ∧ lcFindAny lc enr true = some i ∧
      (lc.lcElement i).lcNewNumber = (lc.lcElement i).lcNumber ∧
      StoresElement lc lc' i { lc.lcElement i with refcnt := (lc.lcElement i).refcnt + 1 }) ∨
    (∃ i, r = some i ∧ lcFindAny lc enr true = none ∧ Recycles lc lc' i enr) := by
  rcases lcGetFlags_cases h with hnone | ⟨i, hr, hfind, hcommitted, hstore⟩ | ⟨i, hr, hmiss, _, hrecycles, _⟩
  · exact .inl hnone
  · exact .inr (.inl ⟨i, hr, hfind, hcommitted rfl, hstore⟩)
  · exact .inr (.inr ⟨i, hr, hmiss, hrecycles⟩)

/-- `lc_put` only lowers the count. -/
theorem lcPut_cases {i lc' cnt} (h : lcPut lc i = some (lc', cnt)) :
    (lc.lcElement i).refcnt ≠ 0 ∧ cnt = (lc.lcElement i).refcnt - 1 ∧
      StoresElement lc lc' i { lc.lcElement i with refcnt := (lc.lcElement i).refcnt - 1 } := by
  unfold lcPut at h
  dsimp only at h
  split at h
  · cases h
  · rename_i hok
    have hpos : (lc.lcElement i).refcnt ≠ 0 := fun h0 => hok (.inr (.inl h0))
    split at h
    · rename_i hzero
      cases h
      exact ⟨hpos, hzero.symm, rfl, rfl, rfl⟩
    · cases h
      exact ⟨hpos, rfl, rfl, rfl, rfl⟩

end Drbd.Lru
