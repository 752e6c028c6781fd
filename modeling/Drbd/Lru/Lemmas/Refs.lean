import Drbd.Lru.Lemmas.Labels
import Drbd.Lru.Ops

/-!
# References

How many references there are to a label, and how the operations change that.
-/

namespace Drbd.Lru

variable {lc lc' : LruCache} {enr i x : Nat}

/-- The references to the element with this label. -/
def refs (lc : LruCache) (enr : Nat) : Nat :=
  match lcFindAny lc enr true with
  | none => 0
  | some i => (lc.lcElement i).refcnt

theorem Labelled.refs_eq (hl : Labelled lc) (hf : enr ≠ LC_FREE) (hi : (lc.lcElement i).lcNewNumber = enr) :
    refs lc enr = (lc.lcElement i).refcnt := by
  unfold refs
  rw [hl.find hf hi]

theorem refs_untracked (h : ¬ Tracks lc enr) : refs lc enr = 0 := by
  unfold refs
  split
  · rfl
  · rename_i i hi
    exact absurd ⟨i, lcFindAny_number hi⟩ h

/-- An element that changes matters only to the labels it has references for, before and after. -/
theorem Labelled.refs_store {e : LcElement} (hl : Labelled lc) (hl' : Labelled lc')
    (helem : lc'.lcElement = Function.update lc.lcElement i e) (hx : x ≠ LC_FREE)
    (hold : (lc.lcElement i).lcNewNumber = x → (lc.lcElement i).refcnt = 0)
    (hnew : e.lcNewNumber = x → e.refcnt = 0) : refs lc' x = refs lc x := by
  have hself : lc'.lcElement i = e := by rw [helem, Function.update_self]
  have hother : ∀ j, j ≠ i → lc'.lcElement j = lc.lcElement j := fun j hj => by
    rw [helem, Function.update_of_ne hj]
  by_cases hj : ∃ j, j ≠ i ∧ (lc.lcElement j).lcNewNumber = x
  · obtain ⟨j, hne, hlabel⟩ := hj
    rw [hl.refs_eq hx hlabel, hl'.refs_eq hx (by rw [hother j hne]; exact hlabel), hother j hne]
  · have hzero : refs lc x = 0 := by
      by_cases hi : (lc.lcElement i).lcNewNumber = x
      · rw [hl.refs_eq hx hi, hold hi]
      · refine refs_untracked fun ⟨j, hlabel⟩ => ?_
        by_cases hne : j = i
        · exact hi (hne ▸ hlabel)
        · exact hj ⟨j, hne, hlabel⟩
    have hzero' : refs lc' x = 0 := by
      by_cases hi : e.lcNewNumber = x
      · rw [hl'.refs_eq hx (by rw [hself]; exact hi), hself, hnew hi]
      · refine refs_untracked fun ⟨j, hlabel⟩ => ?_
        by_cases hne : j = i
        · rw [hne, hself] at hlabel
          exact hi hlabel
        · rw [hother j hne] at hlabel
          exact hj ⟨j, hne, hlabel⟩
    rw [hzero, hzero']

theorem refs_congr (hnum : ∀ j, (lc'.lcElement j).lcNewNumber = (lc.lcElement j).lcNewNumber)
    (hcnt : ∀ j, (lc'.lcElement j).refcnt = (lc.lcElement j).refcnt) (hslot : lc'.lcSlot = lc.lcSlot)
    (hnr : lc'.nrElements = lc.nrElements) (x : Nat) : refs lc' x = refs lc x := by
  simp only [refs, lcFindAny, hnum, hcnt, hslot, hnr, or_true, if_true]

theorem SameLabels.refs (h : SameLabels lc lc') (x : Nat) : refs lc' x = refs lc x :=
  refs_congr (fun _ => by rw [h.1]) (fun _ => by rw [h.1]) h.2.1 h.2.2 x

/-- An element gets another count. -/
theorem StoresElement.recount {n : Nat} (h : StoresElement lc lc' i { lc.lcElement i with refcnt := n })
    (hl : Labelled lc) (hf : enr ≠ LC_FREE) (hi : (lc.lcElement i).lcNewNumber = enr) :
    Labelled lc' ∧ refs lc' enr = n ∧ ∀ x, x ≠ LC_FREE → x ≠ enr → refs lc' x = refs lc x := by
  have hself : lc'.lcElement i = { lc.lcElement i with refcnt := n } := by rw [h.1, Function.update_self]
  have hl' : Labelled lc' := by
    refine hl.congr (fun j => ?_) h.2.1 h.2.2
    by_cases hj : j = i
    · rw [hj, hself]
    · rw [h.1, Function.update_of_ne hj]
  refine ⟨hl', by rw [hl'.refs_eq hf (by rw [hself]; exact hi), hself], fun x hx hne => ?_⟩
  exact hl.refs_store hl' h.1 hx (fun hx => absurd (hx.symm.trans hi) hne) fun hx => absurd (hx.symm.trans hi) hne

/-! ## `lc_get` -/

/-- What `lc_get` does when it recycles an element. -/
structure Recycled (lc lc' : LruCache) (i enr : Nat) : Prop where
  stores : Recycles lc lc' i enr
  idle : (lc.lcElement i).refcnt = 0
  free : lc'.free = lc.free.erase i
  lru : lc'.lru = lc.lru.erase i
  toBeChanged : lc'.toBeChanged = i :: lc.toBeChanged.erase i
  pending : lc'.pendingChanges = lc.pendingChanges + 1
  unused : lcUnusedElement lc = some i
  locked : lc'.lcLocked = lc.lcLocked
  most : lc'.maxPendingChanges = lc.maxPendingChanges
  starving : lc'.lcStarving = false

theorem lcGet_recycled (h : lcGet lc enr = some (lc', some i)) (hmiss : lcFindAny lc enr true = none) :
    Recycled lc lc' i enr := by
  unfold lcGet lcGetFlags at h
  rw [hmiss] at h
  split at h
  · cases h
  split at h
  · cases h
  simp only [Bool.not_true, Bool.false_eq_true, if_false] at h
  split at h
  · cases h
  split at h
  · cases h
  split at h
  · cases h
  split at h
  · cases h
  · rename_i lc₁ j hprep
    split at h
    · cases h
    · rename_i hzero
      cases h
      unfold lcPrepareForChange at hprep
      split at hprep
      · cases hprep
      · rename_i hunused
        cases hprep
        refine ⟨⟨?_, rfl, rfl⟩, ?_, rfl, rfl, rfl, rfl, hunused, rfl, rfl, rfl⟩
        · simp [LruCache.setElement, LruCache.moveToBeChanged, LruCache.rehash, LruCache.unlink]
        · simpa [LruCache.setElement, LruCache.moveToBeChanged, LruCache.rehash, LruCache.unlink] using hzero

/-- Element `i`, without a reference, gets a label that was not there. -/
theorem Labelled.refs_relabel {e : LcElement} (hl : Labelled lc) (hl' : Labelled lc')
    (helem : lc'.lcElement = Function.update lc.lcElement i e) (hidle : (lc.lcElement i).refcnt = 0)
    (hf : enr ≠ LC_FREE) (hnum : e.lcNewNumber = enr) (hx : x ≠ LC_FREE) :
    refs lc' x = if x = enr then e.refcnt else refs lc x := by
  split
  · rename_i heq
    have hself : lc'.lcElement i = e := by rw [helem, Function.update_self]
    rw [heq, hl'.refs_eq hf (by rw [hself]; exact hnum), hself]
  · rename_i hne
    exact hl.refs_store hl' helem hx (fun _ => hidle) fun h => absurd (h.symm.trans hnum) hne

theorem lcGet_refs (hl : Labelled lc) (hf : enr ≠ LC_FREE) (h : lcGet lc enr = some (lc', some i)) :
    Labelled lc' ∧ (lc'.lcElement i).lcNewNumber = enr ∧ refs lc' enr = refs lc enr + 1 ∧
      ∀ x, x ≠ LC_FREE → x ≠ enr → refs lc' x = refs lc x := by
  obtain ⟨hr, _⟩ | ⟨j, hr, hfind, _, hstore⟩ | ⟨j, hr, hmiss, _⟩ := lcGet_cases h
  · cases hr
  · cases hr
    have hi := lcFindAny_number hfind
    obtain ⟨hl', henr, hothers⟩ := hstore.recount hl hf hi
    refine ⟨hl', ?_, by rw [henr, hl.refs_eq hf hi], hothers⟩
    rw [hstore.1, Function.update_self]
    exact hi
  · cases hr
    have hrec := lcGet_recycled h hmiss
    have hself : lc'.lcElement i = ⟨1, (lc.lcElement i).lcNumber, enr⟩ := by
      rw [hrec.stores.1, Function.update_self]
    have hl' : Labelled lc' := by
      refine hl.relabel (hl.find_none hf hmiss) (k := i) (by rw [hself]) (fun j hj => ?_) hrec.stores.2.1
        hrec.stores.2.2
      rw [hrec.stores.1, Function.update_of_ne hj]
    have hrefs := fun {x} (hx : x ≠ LC_FREE) =>
      hl.refs_relabel hl' hrec.stores.1 hrec.idle hf rfl hx
    refine ⟨hl', by rw [hself], ?_, fun x hx hne => by rw [hrefs hx, if_neg hne]⟩
    rw [hrefs hf, if_pos rfl, refs_untracked (hl.find_none hf hmiss)]

theorem lcPut_refs {cnt : Nat} (hl : Labelled lc) (hf : enr ≠ LC_FREE)
    (hi : (lc.lcElement i).lcNewNumber = enr) (h : lcPut lc i = some (lc', cnt)) :
    Labelled lc' ∧ refs lc' enr + 1 = refs lc enr ∧ ∀ x, x ≠ LC_FREE → x ≠ enr → refs lc' x = refs lc x := by
  obtain ⟨hpos, _, hstore⟩ := lcPut_cases h
  obtain ⟨hl', henr, hothers⟩ := hstore.recount hl hf hi
  refine ⟨hl', ?_, hothers⟩
  rw [henr, hl.refs_eq hf hi]
  omega

/-! ## Settled caches -/

/-- Nothing is pending: every element has the label it is to have. -/
structure Settled (lc : LruCache) : Prop where
  labelled : Labelled lc
  settled : ∀ i, (lc.lcElement i).lcNumber = (lc.lcElement i).lcNewNumber

theorem Settled.lcCreate (maxPendingChanges eCount : Nat) : Settled (lcCreate maxPendingChanges eCount) where
  labelled := ⟨fun _ _ _ hf => absurd rfl hf, fun _ hf => absurd rfl hf⟩
  settled _ := rfl

theorem Settled.lcFind_eq (h : Settled lc) (enr : Nat) : lcFind lc enr = lcFindAny lc enr true := by
  simp [lcFind, lcFindAny, h.settled]

theorem Settled.same (h : Settled lc) (hs : SameLabels lc lc') : Settled lc' where
  labelled := h.labelled.congr (fun i => by rw [hs.1]) hs.2.1 hs.2.2
  settled i := by rw [hs.1]; exact h.settled i

theorem Settled.put {cnt : Nat} (h : Settled lc) (hf : enr ≠ LC_FREE)
    (hi : (lc.lcElement i).lcNewNumber = enr) (hput : lcPut lc i = some (lc', cnt)) :
    Settled lc' ∧ (∀ j, (lc'.lcElement j).lcNewNumber = (lc.lcElement j).lcNewNumber) ∧
      refs lc' enr + 1 = refs lc enr ∧ ∀ x, x ≠ LC_FREE → x ≠ enr → refs lc' x = refs lc x := by
  obtain ⟨hl', henr, hothers⟩ := lcPut_refs h.labelled hf hi hput
  obtain ⟨_, _, hstore⟩ := lcPut_cases hput
  have hsame : ∀ j, (lc'.lcElement j).lcNewNumber = (lc.lcElement j).lcNewNumber ∧
      (lc'.lcElement j).lcNumber = (lc.lcElement j).lcNumber := by
    intro j
    rw [hstore.1]
    by_cases hj : j = i
    · rw [hj, Function.update_self]
      exact ⟨rfl, rfl⟩
    · rw [Function.update_of_ne hj]
      exact ⟨rfl, rfl⟩
  refine ⟨⟨hl', fun j => ?_⟩, fun j => (hsame j).1, henr, hothers⟩
  rw [(hsame j).1, (hsame j).2]
  exact h.settled j

/-- Committing changes no label and no count, and settles what was to be changed. -/
theorem commitAll (l : List Nat) (lc : LruCache) :
    (∀ j, ((l.foldl commitElement lc).lcElement j).lcNewNumber = (lc.lcElement j).lcNewNumber ∧
      ((l.foldl commitElement lc).lcElement j).refcnt = (lc.lcElement j).refcnt ∧
      ((lc.lcElement j).lcNumber = (lc.lcElement j).lcNewNumber ∨ j ∈ l →
        ((l.foldl commitElement lc).lcElement j).lcNumber = ((l.foldl commitElement lc).lcElement j).lcNewNumber)) ∧
      (l.foldl commitElement lc).lcSlot = lc.lcSlot ∧ (l.foldl commitElement lc).nrElements = lc.nrElements := by
  induction l generalizing lc with
  | nil => exact ⟨fun j => ⟨rfl, rfl, fun h => h.resolve_right List.not_mem_nil⟩, rfl, rfl⟩
  | cons k l ih =>
      obtain ⟨hall, hslot, hnr⟩ := ih (commitElement lc k)
      rw [List.foldl_cons]
      have hone : ∀ j, ((commitElement lc k).lcElement j).lcNewNumber = (lc.lcElement j).lcNewNumber ∧
          ((commitElement lc k).lcElement j).refcnt = (lc.lcElement j).refcnt ∧
          ((lc.lcElement j).lcNumber = (lc.lcElement j).lcNewNumber ∨ j = k →
            ((commitElement lc k).lcElement j).lcNumber = ((commitElement lc k).lcElement j).lcNewNumber) := by
        intro j
        have helem : (commitElement lc k).lcElement = Function.update lc.lcElement k
            { lc.lcElement k with lcNumber := (lc.lcElement k).lcNewNumber } := rfl
        rw [helem]
        by_cases hj : j = k
        · rw [hj, Function.update_self]
          exact ⟨rfl, rfl, fun _ => rfl⟩
        · rw [Function.update_of_ne hj]
          exact ⟨rfl, rfl, fun h => h.resolve_right hj⟩
      refine ⟨fun j => ⟨(hall j).1.trans (hone j).1, (hall j).2.1.trans (hone j).2.1, fun h => (hall j).2.2 ?_⟩,
        hslot, hnr⟩
      rcases h with h | h
      · exact .inl ((hone j).2.2 (.inl h))
      · rcases List.mem_cons.1 h with h | h
        · exact .inl ((hone j).2.2 (.inr h))
        · exact .inr h

end Drbd.Lru
