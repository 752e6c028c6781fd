import Mathlib.Data.List.Nodup
import Drbd.Lru.Ops

/-!
# The representation of the cache

The fields of an element tell which list it belongs on, and its new number which hash chain. So each
operation, which touches one element at a time, has to be looked at for that element only.
-/

namespace Drbd.Lru

variable {lc lc' : LruCache} {i j s : Nat} {e : LcElement}

/-- The four lists. -/
inductive Home
  | free
  | lru
  | inUse
  | toBeChanged
deriving Repr, DecidableEq

/-- The list an element belongs on. -/
def LcElement.home (e : LcElement) : Home :=
  if e.lcNewNumber = LC_FREE then .free
  else if e.refcnt = 0 then .lru
  else if e.lcNumber = e.lcNewNumber then .inUse
  else .toBeChanged

def LruCache.listOf (lc : LruCache) : Home → List Nat
  | .free => lc.free
  | .lru => lc.lru
  | .inUse => lc.inUse
  | .toBeChanged => lc.toBeChanged

/-- An unused element has one label, and an element without a label is unused. -/
def LcElement.Plain (e : LcElement) : Prop :=
  (e.refcnt = 0 → e.lcNumber = e.lcNewNumber) ∧ (e.lcNewNumber = LC_FREE → e.refcnt = 0)

/-- Every element is on the list it belongs on, and nowhere else. -/
structure Filed (lc : LruCache) : Prop where
  mem : ∀ h i, i ∈ lc.listOf h ↔ i < lc.nrElements ∧ (lc.lcElement i).home = h
  nodup : ∀ h, (lc.listOf h).Nodup
  plain : ∀ i < lc.nrElements, (lc.lcElement i).Plain

/-- The chains hold the elements with a real new number, each on the chain of its number. -/
structure Chained (lc : LruCache) : Prop where
  mem : ∀ s i, i ∈ lc.lcSlot s ↔ i < lc.nrElements ∧ (lc.lcElement i).lcNewNumber ≠ LC_FREE ∧
    s = (lc.lcElement i).lcNewNumber % lc.nrElements
  nodup : ∀ s, (lc.lcSlot s).Nodup
  uniq : ∀ i < lc.nrElements, ∀ j < lc.nrElements,
    (lc.lcElement i).lcNewNumber = (lc.lcElement j).lcNewNumber →
    (lc.lcElement i).lcNewNumber ≠ LC_FREE → i = j

structure Counted (lc : LruCache) : Prop where
  used : lc.used = lc.inUse.length + lc.toBeChanged.length
  pending : lc.pendingChanges = lc.toBeChanged.length
  bound : lc.pendingChanges ≤ lc.maxPendingChanges

structure Rep (lc : LruCache) : Prop where
  elements : 0 < lc.nrElements
  filed : Filed lc
  chained : Chained lc
  counted : Counted lc

/-! ## The lists -/

theorem Filed.not_mem (hf : Filed lc) {h : Home} (hne : (lc.lcElement i).home ≠ h) : i ∉ lc.listOf h :=
  fun hmem => hne ((hf.mem h i).mp hmem).2

/-- An element changes and moves to the head of the list it belongs on now. -/
theorem Filed.move (hf : Filed lc) (hi : i < lc.nrElements) (hp : e.Plain)
    (hn : lc'.nrElements = lc.nrElements) (he : lc'.lcElement = Function.update lc.lcElement i e)
    (hl : ∀ h, lc'.listOf h = if h = e.home then i :: (lc.listOf h).erase i else (lc.listOf h).erase i) :
    Filed lc' where
  mem h j := by
    rw [hl, hn, he]
    by_cases hj : j = i
    · subst hj
      rw [Function.update_self]
      split
      · rename_i hh
        simp [hi, hh]
      · rename_i hh
        simp [(hf.nodup h).mem_erase_iff, Ne.symm hh]
    · rw [Function.update_of_ne hj, ← hf.mem h j]
      split <;> simp [(hf.nodup h).mem_erase_iff, hj]
  nodup h := by
    rw [hl]
    split
    · exact List.nodup_cons.mpr ⟨(hf.nodup h).not_mem_erase, (hf.nodup h).erase i⟩
    · exact (hf.nodup h).erase i
  plain j hj := by
    rw [he]
    by_cases hji : j = i
    · rw [hji, Function.update_self]
      exact hp
    · rw [Function.update_of_ne hji]
      exact hf.plain j (hn ▸ hj)

/-- An element changes but stays where it is. -/
theorem Filed.stay (hf : Filed lc) (hp : e.Plain) (hh : e.home = (lc.lcElement i).home)
    (hn : lc'.nrElements = lc.nrElements) (he : lc'.lcElement = Function.update lc.lcElement i e)
    (hl : ∀ h, lc'.listOf h = lc.listOf h) : Filed lc' where
  mem h j := by
    rw [hl, hn, he, hf.mem h j]
    by_cases hj : j = i
    · rw [hj, Function.update_self, hh]
    · rw [Function.update_of_ne hj]
  nodup h := by
    rw [hl]
    exact hf.nodup h
  plain j hj := by
    rw [he]
    by_cases hji : j = i
    · rw [hji, Function.update_self]
      exact hp
    · rw [Function.update_of_ne hji]
      exact hf.plain j (hn ▸ hj)

theorem Filed.congr (hf : Filed lc) (hn : lc'.nrElements = lc.nrElements)
    (he : lc'.lcElement = lc.lcElement) (hl : ∀ h, lc'.listOf h = lc.listOf h) : Filed lc' where
  mem h j := by rw [hl, hn, he, hf.mem h j]
  nodup h := hl h ▸ hf.nodup h
  plain j hj := by
    rw [he]
    exact hf.plain j (hn ▸ hj)

/-! ## The chains -/

theorem Chained.congr (hc : Chained lc) (hn : lc'.nrElements = lc.nrElements) (hs : lc'.lcSlot = lc.lcSlot)
    (he : ∀ i, (lc'.lcElement i).lcNewNumber = (lc.lcElement i).lcNewNumber) : Chained lc' where
  mem s i := by rw [hs, hn, he, hc.mem]
  nodup s := by
    rw [hs]
    exact hc.nodup s
  uniq i hi j hj hij hf := by
    rw [he, he] at hij
    rw [he] at hf
    exact hc.uniq i (hn ▸ hi) j (hn ▸ hj) hij hf

/-- An element loses its label. -/
theorem Chained.unhash (hc : Chained lc) (hn : lc'.nrElements = lc.nrElements)
    (hs : lc'.lcSlot = (lc.unhash i).lcSlot) (hfree : e.lcNewNumber = LC_FREE)
    (he : lc'.lcElement = Function.update lc.lcElement i e) : Chained lc' where
  mem s j := by
    rw [hs, hn, he]
    by_cases hj : j = i
    · rw [hj, Function.update_self]
      simp [LruCache.unhash, hfree]
    · rw [Function.update_of_ne hj, ← hc.mem]
      simp [LruCache.unhash, hj]
  nodup s := by
    rw [hs]
    exact (hc.nodup s).filter _
  uniq j hj k hk hjk hf := by
    rw [he] at hjk hf
    by_cases hji : j = i
    · rw [hji, Function.update_self] at hf
      exact absurd hfree hf
    · by_cases hki : k = i
      · rw [hki, Function.update_self, hfree] at hjk
        exact absurd hjk hf
      · rw [Function.update_of_ne hji, Function.update_of_ne hki] at hjk
        rw [Function.update_of_ne hji] at hf
        exact hc.uniq j (hn ▸ hj) k (hn ▸ hk) hjk hf

/-- An element gets a label that no other element has. -/
theorem Chained.relabel (hc : Chained lc) (hi : i < lc.nrElements) (hn : lc'.nrElements = lc.nrElements)
    (hs : lc'.lcSlot = (lc.rehash i e.lcNewNumber).lcSlot) (hreal : e.lcNewNumber ≠ LC_FREE)
    (hnew : ∀ j < lc.nrElements, j ≠ i → (lc.lcElement j).lcNewNumber ≠ e.lcNewNumber)
    (he : lc'.lcElement = Function.update lc.lcElement i e) : Chained lc' where
  mem s j := by
    rw [hs, hn, he]
    by_cases hj : j = i
    · rw [hj, Function.update_self]
      simp only [LruCache.rehash]
      split
      · rename_i hslot
        simp [hi, hreal, hslot]
      · rename_i hslot
        simp [hslot]
    · rw [Function.update_of_ne hj, ← hc.mem]
      simp only [LruCache.rehash]
      split <;> simp [hj]
  nodup s := by
    rw [hs]
    simp only [LruCache.rehash]
    split
    · exact List.nodup_cons.mpr ⟨by simp, (hc.nodup s).filter _⟩
    · exact (hc.nodup s).filter _
  uniq j hj k hk hjk hf := by
    rw [hn] at hj hk
    rw [he] at hjk hf
    by_cases hji : j = i
    · by_cases hki : k = i
      · rw [hji, hki]
      · rw [hji, Function.update_self, Function.update_of_ne hki] at hjk
        exact absurd hjk.symm (hnew k hk hki)
    · by_cases hki : k = i
      · rw [hki, Function.update_self, Function.update_of_ne hji] at hjk
        exact absurd hjk (hnew j hj hji)
      · rw [Function.update_of_ne hji, Function.update_of_ne hki] at hjk
        rw [Function.update_of_ne hji] at hf
        exact hc.uniq j hj k hk hjk hf

/-! ## Lookups -/

theorem Chained.find_some (hc : Chained lc) {enr : Nat} {changing : Bool}
    (h : lcFindAny lc enr changing = some i) : i < lc.nrElements ∧ (lc.lcElement i).lcNewNumber = enr := by
  unfold lcFindAny at h
  split at h
  · cases h
  · rename_i k hk
    have hmem := ((hc.mem _ _).mp (List.mem_of_find?_eq_some hk)).1
    have hnum := List.find?_some hk
    simp only [decide_eq_true_eq] at hnum
    split at h
    · cases h
      exact ⟨hmem, hnum⟩
    · cases h

theorem Chained.find_none (hc : Chained lc) {enr : Nat} (hreal : enr ≠ LC_FREE)
    (h : lcFindAny lc enr true = none) : ∀ j < lc.nrElements, (lc.lcElement j).lcNewNumber ≠ enr := by
  intro j hj hnum
  unfold lcFindAny at h
  split at h
  · rename_i hnone
    have hmem : j ∈ lc.lcSlot (enr % lc.nrElements) := (hc.mem _ _).mpr ⟨hj, hnum ▸ hreal, by rw [hnum]⟩
    have hno := List.find?_eq_none.mp hnone j hmem
    simp [hnum] at hno
  · simp at h

/-! ## Homes -/

theorem LcElement.home_inUse (h1 : e.lcNewNumber ≠ LC_FREE) (h2 : e.refcnt ≠ 0)
    (h3 : e.lcNumber = e.lcNewNumber) : e.home = .inUse := by
  unfold LcElement.home
  rw [if_neg h1, if_neg h2, if_pos h3]

theorem LcElement.home_toBeChanged (h1 : e.lcNewNumber ≠ LC_FREE) (h2 : e.refcnt ≠ 0)
    (h3 : e.lcNumber ≠ e.lcNewNumber) : e.home = .toBeChanged := by
  unfold LcElement.home
  rw [if_neg h1, if_neg h2, if_neg h3]

theorem LcElement.home_lru (h1 : e.lcNewNumber ≠ LC_FREE) (h2 : e.refcnt = 0) : e.home = .lru := by
  unfold LcElement.home
  rw [if_neg h1, if_pos h2]

theorem LcElement.home_free (h : e.lcNewNumber = LC_FREE) : e.home = .free := by
  unfold LcElement.home
  rw [if_pos h]

/-- What the home of an element says about it. -/
theorem LcElement.home_cases (hp : e.Plain) :
    (e.home = .free ∧ e.refcnt = 0 ∧ e.lcNumber = LC_FREE ∧ e.lcNewNumber = LC_FREE) ∨
    (e.home = .lru ∧ e.refcnt = 0 ∧ e.lcNumber = e.lcNewNumber ∧ e.lcNewNumber ≠ LC_FREE) ∨
    (e.home = .inUse ∧ e.refcnt ≠ 0 ∧ e.lcNumber = e.lcNewNumber ∧ e.lcNewNumber ≠ LC_FREE) ∨
    (e.home = .toBeChanged ∧ e.refcnt ≠ 0 ∧ e.lcNumber ≠ e.lcNewNumber ∧ e.lcNewNumber ≠ LC_FREE) := by
  by_cases h1 : e.lcNewNumber = LC_FREE
  · have h0 := hp.2 h1
    exact .inl ⟨home_free h1, h0, (hp.1 h0).trans h1, h1⟩
  · by_cases h2 : e.refcnt = 0
    · exact .inr (.inl ⟨home_lru h1 h2, h2, hp.1 h2, h1⟩)
    · by_cases h3 : e.lcNumber = e.lcNewNumber
      · exact .inr (.inr (.inl ⟨home_inUse h1 h2 h3, h2, h3, h1⟩))
      · exact .inr (.inr (.inr ⟨home_toBeChanged h1 h2 h3, h2, h3, h1⟩))

/-! ## Moves -/

theorem listOf_moveInUse (h : Home) : (lc.moveInUse i).listOf h =
    if h = .inUse then i :: (lc.listOf h).erase i else (lc.listOf h).erase i := by
  cases h <;> rfl

theorem listOf_moveToBeChanged (h : Home) : (lc.moveToBeChanged i).listOf h =
    if h = .toBeChanged then i :: (lc.listOf h).erase i else (lc.listOf h).erase i := by
  cases h <;> rfl

theorem listOf_moveLru (h : Home) : (lc.moveLru i).listOf h =
    if h = .lru then i :: (lc.listOf h).erase i else (lc.listOf h).erase i := by
  cases h <;> rfl

theorem listOf_moveFree (h : Home) : (lc.moveFree i).listOf h =
    if h = .free then i :: (lc.listOf h).erase i else (lc.listOf h).erase i := by
  cases h <;> rfl

theorem Filed.erase_of_ne (hf : Filed lc) {h : Home} (hne : (lc.lcElement i).home ≠ h) :
    (lc.listOf h).erase i = lc.listOf h :=
  List.erase_of_not_mem (hf.not_mem hne)

theorem Filed.length_erase (hf : Filed lc) (hi : i < lc.nrElements) {h : Home}
    (hh : (lc.lcElement i).home = h) : ((lc.listOf h).erase i).length + 1 = (lc.listOf h).length := by
  have hmem := (hf.mem h i).mpr ⟨hi, hh⟩
  rw [List.length_erase_of_mem hmem]
  have hpos := List.length_pos_of_mem hmem
  omega

end Drbd.Lru
