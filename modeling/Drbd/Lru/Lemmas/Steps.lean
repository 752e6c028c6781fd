import Drbd.Lru.Lemmas.Rep

/-!
# Every operation keeps the representation
-/

namespace Drbd.Lru

variable {lc lc' : LruCache} {i j enr : Nat} {r : Option Nat}

/-- Only statistics and flags differ. -/
structure SameRep (lc lc' : LruCache) : Prop where
  nrElements : lc'.nrElements = lc.nrElements
  lists : ∀ h, lc'.listOf h = lc.listOf h
  slots : lc'.lcSlot = lc.lcSlot
  elements : lc'.lcElement = lc.lcElement
  used : lc'.used = lc.used
  pending : lc'.pendingChanges = lc.pendingChanges
  max : lc'.maxPendingChanges = lc.maxPendingChanges

theorem Rep.congr (h : Rep lc) (hs : SameRep lc lc') : Rep lc' where
  elements := hs.nrElements ▸ h.elements
  filed := h.filed.congr hs.nrElements hs.elements hs.lists
  chained := h.chained.congr hs.nrElements hs.slots fun i => by rw [hs.elements]
  counted := by
    have hin : lc'.inUse = lc.inUse := hs.lists .inUse
    have hto : lc'.toBeChanged = lc.toBeChanged := hs.lists .toBeChanged
    constructor
    · rw [hs.used, hin, hto]
      exact h.counted.used
    · rw [hs.pending, hto]
      exact h.counted.pending
    · rw [hs.pending, hs.max]
      exact h.counted.bound

/-! ## Getting an element -/

/-- Another reference to an element that is being changed. -/
theorem Rep.hitUncommitted (h : Rep lc) (hi : i < lc.nrElements)
    (hnum : (lc.lcElement i).lcNewNumber ≠ (lc.lcElement i).lcNumber)
    (hn : lc'.nrElements = lc.nrElements) (hl : ∀ h, lc'.listOf h = lc.listOf h) (hs : lc'.lcSlot = lc.lcSlot)
    (he : lc'.lcElement = Function.update lc.lcElement i
      { lc.lcElement i with refcnt := (lc.lcElement i).refcnt + 1 })
    (hu : lc'.used = lc.used) (hp : lc'.pendingChanges = lc.pendingChanges)
    (hm : lc'.maxPendingChanges = lc.maxPendingChanges) : Rep lc' where
  elements := hn ▸ h.elements
  filed := by
    obtain ⟨-, h0, ho, hw⟩ | ⟨-, h0, ho, -⟩ | ⟨-, -, ho, -⟩ | ⟨hh, h0, ho, hreal⟩ :=
      LcElement.home_cases (h.filed.plain i hi)
    · exact absurd (hw.trans ho.symm) hnum
    · exact absurd ho.symm hnum
    · exact absurd ho.symm hnum
    · refine h.filed.stay ?_ ?_ hn he hl
      · exact ⟨fun hz => absurd hz (Nat.succ_ne_zero _), fun hz => absurd hz hreal⟩
      · rw [hh]
        exact LcElement.home_toBeChanged hreal (Nat.succ_ne_zero _) ho
  chained := by
    refine h.chained.congr hn hs fun j => ?_
    rw [he]
    by_cases hj : j = i
    · rw [hj, Function.update_self]
    · rw [Function.update_of_ne hj]
  counted := by
    have hin : lc'.inUse = lc.inUse := hl .inUse
    have hto : lc'.toBeChanged = lc.toBeChanged := hl .toBeChanged
    exact ⟨by rw [hu, hin, hto, h.counted.used], by rw [hp, hto, h.counted.pending], by
      rw [hp, hm]; exact h.counted.bound⟩

/-- Another reference to a committed element, which is not evictable then. -/
theorem Rep.hit (h : Rep lc) (hi : i < lc.nrElements)
    (hreal : (lc.lcElement i).lcNewNumber ≠ LC_FREE)
    (hnum : (lc.lcElement i).lcNewNumber = (lc.lcElement i).lcNumber)
    (hn : lc'.nrElements = lc.nrElements) (hl : ∀ h, lc'.listOf h = (lc.moveInUse i).listOf h)
    (hs : lc'.lcSlot = lc.lcSlot)
    (he : lc'.lcElement = Function.update lc.lcElement i
      { lc.lcElement i with refcnt := (lc.lcElement i).refcnt + 1 })
    (hu : lc'.used = if (lc.lcElement i).refcnt = 0 then lc.used + 1 else lc.used)
    (hp : lc'.pendingChanges = lc.pendingChanges)
    (hm : lc'.maxPendingChanges = lc.maxPendingChanges) : Rep lc' where
  elements := hn ▸ h.elements
  filed := by
    have hhome : ({ lc.lcElement i with refcnt := (lc.lcElement i).refcnt + 1 } : LcElement).home = .inUse :=
      LcElement.home_inUse hreal (Nat.succ_ne_zero _) hnum.symm
    refine h.filed.move hi ?_ hn he fun k => ?_
    · exact ⟨fun hz => absurd hz (Nat.succ_ne_zero _), fun hz => absurd hz hreal⟩
    · rw [hl, listOf_moveInUse, hhome]
  chained := by
    refine h.chained.congr hn hs fun j => ?_
    rw [he]
    by_cases hj : j = i
    · rw [hj, Function.update_self]
    · rw [Function.update_of_ne hj]
  counted := by
    have hhome : (lc.lcElement i).home = if (lc.lcElement i).refcnt = 0 then .lru else .inUse := by
      split
      · rename_i h0
        exact LcElement.home_lru hreal h0
      · rename_i h0
        exact LcElement.home_inUse hreal h0 hnum.symm
    have hne : (lc.lcElement i).home ≠ .toBeChanged := by
      rw [hhome]
      split <;> exact fun h => nomatch h
    have hto : lc'.toBeChanged = lc.toBeChanged := by
      have := hl .toBeChanged
      rw [listOf_moveInUse] at this
      exact this.trans (h.filed.erase_of_ne hne)
    have hin : lc'.inUse = i :: lc.inUse.erase i := hl .inUse
    refine ⟨?_, by rw [hp, hto, h.counted.pending], by rw [hp, hm]; exact h.counted.bound⟩
    rw [hu, hin, hto, h.counted.used, List.length_cons]
    by_cases h0 : (lc.lcElement i).refcnt = 0
    · rw [if_pos h0] at hhome ⊢
      have herase : lc.inUse.erase i = lc.inUse :=
        h.filed.erase_of_ne (h := .inUse) (by rw [hhome]; exact fun h => nomatch h)
      rw [herase]
      omega
    · rw [if_neg h0] at hhome ⊢
      have hlen : (lc.inUse.erase i).length + 1 = lc.inUse.length := h.filed.length_erase hi hhome
      omega

/-- A free or the least recently used element is taken for a new label. -/
theorem Rep.recycle (h : Rep lc) (hreal : enr ≠ LC_FREE)
    (hnew : ∀ j < lc.nrElements, (lc.lcElement j).lcNewNumber ≠ enr) (hi : i < lc.nrElements)
    (hidle : (lc.lcElement i).refcnt = 0) (hpend : lc.pendingChanges < lc.maxPendingChanges)
    (hn : lc'.nrElements = lc.nrElements) (hl : ∀ h, lc'.listOf h = (lc.moveToBeChanged i).listOf h)
    (hs : lc'.lcSlot = (lc.rehash i enr).lcSlot)
    (he : lc'.lcElement = Function.update lc.lcElement i ⟨1, (lc.lcElement i).lcNumber, enr⟩)
    (hu : lc'.used = lc.used + 1) (hp : lc'.pendingChanges = lc.pendingChanges + 1)
    (hm : lc'.maxPendingChanges = lc.maxPendingChanges) : Rep lc' where
  elements := hn ▸ h.elements
  filed := by
    have hold : (lc.lcElement i).lcNumber ≠ enr := by
      rw [(h.filed.plain i hi).1 hidle]
      exact hnew i hi
    have hhome : (⟨1, (lc.lcElement i).lcNumber, enr⟩ : LcElement).home = .toBeChanged :=
      LcElement.home_toBeChanged hreal Nat.one_ne_zero hold
    refine h.filed.move hi ⟨fun hz => absurd hz Nat.one_ne_zero, fun hz => absurd hz hreal⟩ hn he fun k => ?_
    rw [hl, listOf_moveToBeChanged, hhome]
  chained := h.chained.relabel hi hn hs hreal (fun j hj _ => hnew j hj) he
  counted := by
    have hhome : (lc.lcElement i).home = .free ∨ (lc.lcElement i).home = .lru := by
      obtain ⟨hh, -⟩ | ⟨hh, -⟩ | ⟨-, h0, -⟩ | ⟨-, h0, -⟩ := LcElement.home_cases (h.filed.plain i hi)
      · exact .inl hh
      · exact .inr hh
      · exact absurd hidle h0
      · exact absurd hidle h0
    have hin : lc'.inUse = lc.inUse := by
      have hmove := hl .inUse
      rw [listOf_moveToBeChanged] at hmove
      refine hmove.trans (h.filed.erase_of_ne ?_)
      rcases hhome with hh | hh <;> rw [hh] <;> exact fun h => nomatch h
    have herase : lc.toBeChanged.erase i = lc.toBeChanged := by
      refine h.filed.erase_of_ne (h := .toBeChanged) ?_
      rcases hhome with hh | hh <;> rw [hh] <;> exact fun h => nomatch h
    have hto : lc'.toBeChanged = i :: lc.toBeChanged := by
      have hmove : lc'.toBeChanged = i :: lc.toBeChanged.erase i := hl .toBeChanged
      rw [hmove, herase]
    refine ⟨?_, ?_, by rw [hp, hm]; exact hpend⟩
    · rw [hu, hin, hto, h.counted.used, List.length_cons]
      omega
    · rw [hp, hto, h.counted.pending, List.length_cons]

/-- The element that is taken next is not in use. -/
theorem Rep.unused (h : Rep lc) (hu : lcUnusedElement lc = some i) :
    i < lc.nrElements ∧ (lc.lcElement i).refcnt = 0 := by
  have hhome : i < lc.nrElements ∧ ((lc.lcElement i).home = .free ∨ (lc.lcElement i).home = .lru) := by
    unfold lcUnusedElement at hu
    split at hu
    · rename_i k l hfree
      cases hu
      have hmem : i ∈ lc.listOf .free := by
        unfold LruCache.listOf
        rw [hfree]
        exact List.mem_cons_self
      obtain ⟨hi, hh⟩ := (h.filed.mem .free i).mp hmem
      exact ⟨hi, .inl hh⟩
    · obtain ⟨hi, hh⟩ := (h.filed.mem .lru i).mp (List.mem_of_getLast? hu)
      exact ⟨hi, .inr hh⟩
  refine ⟨hhome.1, ?_⟩
  obtain ⟨-, h0, -⟩ | ⟨-, h0, -⟩ | ⟨hh, -⟩ | ⟨hh, -⟩ := LcElement.home_cases (h.filed.plain i hhome.1)
  · exact h0
  · exact h0
  · rw [hh] at hhome
    exact absurd hhome.2 (by decide)
  · rw [hh] at hhome
    exact absurd hhome.2 (by decide)

/-- What `__lc_get` can do. -/
theorem Rep.getFlags_cases (h : Rep lc) (mayChange mayUse : Bool) :
    ∃ lc' r, lcGetFlags lc enr mayChange mayUse = some (lc', r) ∧ (enr ≠ LC_FREE → Rep lc') ∧
      ((r = none ∧ lc'.lru = lc.lru) ∨
        (∃ i, r = some i ∧ i < lc.nrElements ∧ (lc.lcElement i).lcNewNumber = enr ∧
          lc'.lru.Sublist lc.lru) ∨
        (∃ i, r = some i ∧ lcUnusedElement lc = some i ∧ lc'.lru = lc.lru.erase i ∧
          (enr ≠ LC_FREE → ∀ j < lc.nrElements, (lc.lcElement j).lcNewNumber ≠ enr))) := by
  unfold lcGetFlags
  rw [if_neg (Nat.pos_iff_ne_zero.mp h.elements)]
  split
  · exact ⟨_, _, rfl, fun _ => h.congr ⟨rfl, fun k => by cases k <;> rfl, rfl, rfl, rfl, rfl, rfl⟩,
      .inl ⟨rfl, rfl⟩⟩
  split
  · rename_i i hfind
    obtain ⟨hi, hnum⟩ := h.chained.find_some hfind
    dsimp only
    split
    · rename_i hpend
      split
      · refine ⟨_, _, rfl, fun _ => h.hitUncommitted hi hpend rfl ?_ rfl rfl rfl rfl rfl,
          .inr (.inl ⟨i, rfl, hi, hnum, List.Sublist.refl _⟩)⟩
        intro k
        cases k <;> rfl
      · exact ⟨_, _, rfl, fun _ => h, .inl ⟨rfl, rfl⟩⟩
    · rename_i hsame
      refine ⟨_, _, rfl, fun hreal => ?_, .inr (.inl ⟨i, rfl, hi, hnum, List.erase_sublist⟩)⟩
      refine h.hit hi (hnum ▸ hreal) (not_ne_iff.mp hsame) rfl ?_ rfl rfl rfl rfl rfl
      intro k
      cases k <;> rfl
  · rename_i hfind
    dsimp only
    split
    · exact ⟨_, _, rfl, fun _ => h.congr ⟨rfl, fun k => by cases k <;> rfl, rfl, rfl, rfl, rfl, rfl⟩,
        .inl ⟨rfl, rfl⟩⟩
    split
    · exact ⟨_, _, rfl, fun _ => h.congr ⟨rfl, fun k => by cases k <;> rfl, rfl, rfl, rfl, rfl, rfl⟩,
        .inl ⟨rfl, rfl⟩⟩
    split
    · exact ⟨_, _, rfl, fun _ => h.congr ⟨rfl, fun k => by cases k <;> rfl, rfl, rfl, rfl, rfl, rfl⟩,
        .inl ⟨rfl, rfl⟩⟩
    split
    · exact ⟨_, _, rfl, fun _ => h.congr ⟨rfl, fun k => by cases k <;> rfl, rfl, rfl, rfl, rfl, rfl⟩,
        .inl ⟨rfl, rfl⟩⟩
    rename_i hunused hmax
    obtain ⟨i, hu⟩ : ∃ i, lcUnusedElement lc = some i := Option.ne_none_iff_exists'.mp hunused
    obtain ⟨hi, h0⟩ := h.unused hu
    have hprep : lcPrepareForChange { lc with misses := lc.misses + 1, lcDirty := true } enr =
        some (((({ lc with misses := lc.misses + 1, lcDirty := true } : LruCache).setElement i
          { lc.lcElement i with lcNewNumber := enr }).rehash i enr).moveToBeChanged i, i) := by
      unfold lcPrepareForChange
      rw [show lcUnusedElement { lc with misses := lc.misses + 1, lcDirty := true } = some i from hu]
    have hcnt : ¬ (Function.update lc.lcElement i { lc.lcElement i with lcNewNumber := enr } i).refcnt ≠ 0 := by
      rw [Function.update_self]
      exact not_ne_iff.mpr h0
    simp only [hprep]
    split
    · rename_i hc
      exact absurd hc hcnt
    refine ⟨_, _, rfl, fun hreal => ?_, .inr (.inr ⟨i, rfl, hu, rfl, fun hreal => h.chained.find_none hreal hfind⟩)⟩
    refine h.recycle hreal (h.chained.find_none hreal hfind) hi h0 (Nat.lt_of_not_le hmax) rfl ?_ rfl ?_ rfl
      rfl rfl
    · intro k
      cases k <;> rfl
    · simp [LruCache.setElement, LruCache.moveToBeChanged, LruCache.rehash, LruCache.unlink, h0]

/-! ## Putting an element back -/

theorem Rep.put (h : Rep lc) (hi : i < lc.nrElements) (h0 : (lc.lcElement i).refcnt ≠ 0)
    (hnum : (lc.lcElement i).lcNumber = (lc.lcElement i).lcNewNumber) :
    ∃ lc' cnt, lcPut lc i = some (lc', cnt) ∧ Rep lc' ∧
      lc'.lru = if cnt = 0 then i :: lc.lru.erase i else lc.lru := by
  have hplain := h.filed.plain i hi
  have hreal : (lc.lcElement i).lcNewNumber ≠ LC_FREE := fun hf => h0 (hplain.2 hf)
  have hhome : (lc.lcElement i).home = .inUse := LcElement.home_inUse hreal h0 hnum
  have hchain {lc' : LruCache} (cnt : Nat) (hs : lc'.lcSlot = lc.lcSlot) (hn : lc'.nrElements = lc.nrElements)
      (he : lc'.lcElement = Function.update lc.lcElement i { lc.lcElement i with refcnt := cnt }) :
      Chained lc' := by
    refine h.chained.congr hn hs fun j => ?_
    rw [he]
    by_cases hj : j = i
    · rw [hj, Function.update_self]
    · rw [Function.update_of_ne hj]
  unfold lcPut
  dsimp only
  rw [if_neg (fun hc => hc.elim (fun hle => Nat.not_le_of_lt hi hle) fun hc => hc.elim h0 (· hnum))]
  split
  · rename_i hz
    refine ⟨_, 0, rfl, ⟨h.elements, ?_, hchain _ rfl rfl rfl, ?_⟩, rfl⟩
    · have hlru : ({ lc.lcElement i with refcnt := (lc.lcElement i).refcnt - 1 } : LcElement).home = .lru :=
        LcElement.home_lru hreal hz
      refine h.filed.move (e := { lc.lcElement i with refcnt := (lc.lcElement i).refcnt - 1 }) hi
        ⟨fun _ => hnum, fun hf => absurd hf hreal⟩ rfl rfl fun k => ?_
      rw [hlru, ← listOf_moveLru]
      cases k <;> rfl
    · have hin : (lc.inUse.erase i).length + 1 = lc.inUse.length := h.filed.length_erase hi hhome
      have hto : lc.toBeChanged.erase i = lc.toBeChanged :=
        h.filed.erase_of_ne (h := .toBeChanged) (by rw [hhome]; exact fun h => nomatch h)
      have hused := h.counted.used
      refine ⟨?_, ?_, h.counted.bound⟩
      · show lc.used - 1 = (lc.inUse.erase i).length + (lc.toBeChanged.erase i).length
        rw [hto]
        omega
      · show lc.pendingChanges = (lc.toBeChanged.erase i).length
        rw [hto]
        exact h.counted.pending
  · rename_i hz
    refine ⟨_, _, rfl, ⟨h.elements, ?_, hchain _ rfl rfl rfl, h.counted.used, h.counted.pending,
      h.counted.bound⟩, ?_⟩
    · refine h.filed.stay (e := { lc.lcElement i with refcnt := (lc.lcElement i).refcnt - 1 })
        ⟨fun hc => absurd hc hz, fun hf => absurd hf hreal⟩ ?_ rfl rfl fun k => by cases k <;> rfl
      rw [hhome]
      exact LcElement.home_inUse hreal hz hnum
    · rw [if_neg hz]
      rfl

/-! ## Labels without references -/

/-- An idle element is on no list that is counted. -/
theorem Rep.idle (h : Rep lc) (hi : i < lc.nrElements) (h0 : (lc.lcElement i).refcnt = 0) :
    lc.inUse.erase i = lc.inUse ∧ lc.toBeChanged.erase i = lc.toBeChanged := by
  have hne : (lc.lcElement i).home ≠ .inUse ∧ (lc.lcElement i).home ≠ .toBeChanged := by
    obtain ⟨hh, -⟩ | ⟨hh, -⟩ | ⟨-, hn, -⟩ | ⟨-, hn, -⟩ := LcElement.home_cases (h.filed.plain i hi)
    · rw [hh]
      decide
    · rw [hh]
      decide
    · exact absurd h0 hn
    · exact absurd h0 hn
  exact ⟨h.filed.erase_of_ne (h := .inUse) hne.1, h.filed.erase_of_ne (h := .toBeChanged) hne.2⟩

/-- An idle element loses its label. -/
theorem Rep.free (h : Rep lc) (hi : i < lc.nrElements) (h0 : (lc.lcElement i).refcnt = 0) :
    Rep (((lc.setElement i { lc.lcElement i with lcNumber := LC_FREE, lcNewNumber := LC_FREE }).unhash
      i).moveFree i) where
  elements := h.elements
  filed := by
    have hhome : (⟨(lc.lcElement i).refcnt, LC_FREE, LC_FREE⟩ : LcElement).home = .free :=
      LcElement.home_free rfl
    refine h.filed.move (e := ⟨(lc.lcElement i).refcnt, LC_FREE, LC_FREE⟩) hi ⟨fun _ => rfl, fun _ => h0⟩
      rfl rfl fun k => ?_
    rw [hhome, ← listOf_moveFree]
    cases k <;> rfl
  chained := h.chained.unhash (e := ⟨(lc.lcElement i).refcnt, LC_FREE, LC_FREE⟩) rfl rfl rfl rfl
  counted := by
    obtain ⟨hin, hto⟩ := h.idle hi h0
    refine ⟨?_, ?_, h.counted.bound⟩
    · show lc.used = (lc.inUse.erase i).length + (lc.toBeChanged.erase i).length
      rw [hin, hto]
      exact h.counted.used
    · show lc.pendingChanges = (lc.toBeChanged.erase i).length
      rw [hto]
      exact h.counted.pending

/-- An idle element gets a label that no other element has. -/
theorem Rep.label (h : Rep lc) (hi : i < lc.nrElements) (h0 : (lc.lcElement i).refcnt = 0)
    (hreal : enr ≠ LC_FREE)
    (hnew : ∀ j < lc.nrElements, j ≠ i → (lc.lcElement j).lcNewNumber ≠ enr) :
    Rep ((((lc.setElement i { lc.lcElement i with lcNumber := enr, lcNewNumber := enr }).unhash i).rehash
      i enr).moveLru i) where
  elements := h.elements
  filed := by
    have hhome : (⟨(lc.lcElement i).refcnt, enr, enr⟩ : LcElement).home = .lru :=
      LcElement.home_lru hreal h0
    refine h.filed.move (e := ⟨(lc.lcElement i).refcnt, enr, enr⟩) hi
      ⟨fun _ => rfl, fun hf => absurd hf hreal⟩ rfl rfl fun k => ?_
    rw [hhome, ← listOf_moveLru]
    cases k <;> simp only [LruCache.listOf, LruCache.moveLru, LruCache.rehash, LruCache.unhash,
      LruCache.setElement, LruCache.unlink]
  chained := by
    refine h.chained.relabel (e := ⟨(lc.lcElement i).refcnt, enr, enr⟩) hi rfl ?_ hreal hnew rfl
    funext s
    simp [LruCache.rehash, LruCache.unhash, LruCache.setElement, LruCache.moveLru, LruCache.unlink]
  counted := by
    obtain ⟨hin, hto⟩ := h.idle hi h0
    refine ⟨?_, ?_, h.counted.bound⟩
    · show lc.used = (lc.inUse.erase i).length + (lc.toBeChanged.erase i).length
      rw [hin, hto]
      exact h.counted.used
    · show lc.pendingChanges = (lc.toBeChanged.erase i).length
      rw [hto]
      exact h.counted.pending

theorem Rep.del (h : Rep lc) (hi : i < lc.nrElements) (h0 : (lc.lcElement i).refcnt = 0) :
    ∃ lc', lcDel lc i = some lc' ∧ Rep lc' ∧ lc'.lru.Sublist lc.lru := by
  unfold lcDel
  rw [if_neg (fun hc => hc.elim (fun hle => Nat.not_le_of_lt hi hle) (· h0))]
  exact ⟨_, rfl, h.free hi h0, List.erase_sublist⟩

/-- `lc_set` on an element of the cache. -/
theorem Rep.set (h : Rep lc) {index : Int} (hpos : 0 ≤ index) (hlt : index < lc.nrElements)
    (h0 : (lc.lcElement index.toNat).refcnt = 0)
    (hnum : (lc.lcElement index.toNat).lcNumber = (lc.lcElement index.toNat).lcNewNumber)
    (hnew : enr ≠ LC_FREE → ∀ j < lc.nrElements, j ≠ index.toNat → (lc.lcElement j).lcNewNumber ≠ enr) :
    ∃ lc', lcSet lc enr index = some lc' ∧ Rep lc' ∧
      lc'.lru = if enr = LC_FREE then lc.lru.erase index.toNat else index.toNat :: lc.lru.erase index.toNat := by
  have hi : index.toNat < lc.nrElements := by omega
  unfold lcSet
  rw [if_neg (by omega)]
  dsimp only
  rw [if_neg (fun hc => hc.elim (· hnum) (· h0))]
  split
  · rename_i hf
    subst hf
    exact ⟨_, rfl, h.free hi h0, rfl⟩
  · rename_i hf
    exact ⟨_, rfl, h.label hi h0 hf (hnew hf), rfl⟩

/-! ## Committing the pending changes -/

/-- Everything but the number of pending changes, which is only set at the end of the loop. -/
structure Committing (lc : LruCache) : Prop where
  elements : 0 < lc.nrElements
  filed : Filed lc
  chained : Chained lc
  used : lc.used = lc.inUse.length + lc.toBeChanged.length

theorem Committing.step (h : Committing lc) (hi : i < lc.nrElements)
    (hh : (lc.lcElement i).home = .toBeChanged) :
    Committing (commitElement lc i) ∧ (commitElement lc i).toBeChanged.length + 1 = lc.toBeChanged.length ∧
      (commitElement lc i).lru.Sublist lc.lru ∧
      ∀ j, j ≠ i → (commitElement lc i).lcElement j = lc.lcElement j := by
  obtain ⟨hne, -⟩ | ⟨hne, -⟩ | ⟨hne, -⟩ | ⟨-, h0, -, hreal⟩ := LcElement.home_cases (h.filed.plain i hi)
  · rw [hh] at hne
    cases hne
  · rw [hh] at hne
    cases hne
  · rw [hh] at hne
    cases hne
  · have hto : (lc.toBeChanged.erase i).length + 1 = lc.toBeChanged.length := h.filed.length_erase hi hh
    have hin : lc.inUse.erase i = lc.inUse :=
      h.filed.erase_of_ne (h := .inUse) (by rw [hh]; exact fun h => nomatch h)
    refine ⟨⟨h.elements, ?_, ?_, ?_⟩, hto, List.erase_sublist, fun j hj => Function.update_of_ne hj ..⟩
    · have hhome : ({ lc.lcElement i with lcNumber := (lc.lcElement i).lcNewNumber } : LcElement).home =
          .inUse := LcElement.home_inUse hreal h0 rfl
      refine h.filed.move (e := { lc.lcElement i with lcNumber := (lc.lcElement i).lcNewNumber }) hi
        ⟨fun _ => rfl, fun hf => absurd hf hreal⟩ rfl rfl fun k => ?_
      rw [hhome, ← listOf_moveInUse]
      cases k <;> rfl
    · refine h.chained.congr rfl rfl fun j => ?_
      show (Function.update lc.lcElement i _ j).lcNewNumber = _
      by_cases hj : j = i
      · rw [hj, Function.update_self]
      · rw [Function.update_of_ne hj]
    · show lc.used = (i :: lc.inUse.erase i).length + (lc.toBeChanged.erase i).length
      rw [hin, List.length_cons, h.used]
      omega

theorem Committing.foldl {l : List Nat} (h : Committing lc) (hnd : l.Nodup)
    (hl : ∀ i ∈ l, i < lc.nrElements ∧ (lc.lcElement i).home = .toBeChanged) :
    Committing (l.foldl commitElement lc) ∧
      (l.foldl commitElement lc).toBeChanged.length + l.length = lc.toBeChanged.length ∧
      (l.foldl commitElement lc).lru.Sublist lc.lru := by
  induction l generalizing lc with
  | nil => exact ⟨h, rfl, List.Sublist.refl _⟩
  | cons i l ih =>
      obtain ⟨hi, hh⟩ := hl i List.mem_cons_self
      obtain ⟨hstep, hlen, hsub, hother⟩ := h.step hi hh
      obtain ⟨hnot, hnd⟩ := List.nodup_cons.mp hnd
      have hrest : ∀ j ∈ l, j < (commitElement lc i).nrElements ∧
          ((commitElement lc i).lcElement j).home = .toBeChanged := by
        intro j hj
        rw [hother j (fun he => hnot (he ▸ hj))]
        exact hl j (List.mem_cons_of_mem i hj)
      obtain ⟨hend, hlen', hsub'⟩ := ih hstep hnd hrest
      rw [List.foldl_cons, List.length_cons]
      exact ⟨hend, by omega, hsub'.trans hsub⟩

theorem Rep.committed (h : Rep lc) : ∃ lc', lcCommitted lc = some lc' ∧ Rep lc' ∧ lc'.lru.Sublist lc.lru := by
  have hstart : Committing lc := ⟨h.elements, h.filed, h.chained, h.counted.used⟩
  obtain ⟨hend, hlen, hsub⟩ := hstart.foldl (h.filed.nodup .toBeChanged)
    fun i hi => (h.filed.mem .toBeChanged i).mp hi
  have hnil : (lc.toBeChanged.foldl commitElement lc).toBeChanged.length = 0 := by
    change _ + lc.toBeChanged.length = _ at hlen
    exact Nat.add_eq_right.mp hlen
  unfold lcCommitted
  rw [if_neg (Nat.pos_iff_ne_zero.mp h.elements)]
  refine ⟨_, rfl, ⟨hend.elements, ?_, ?_, ?_⟩, hsub⟩
  · exact hend.filed.congr rfl rfl fun k => by cases k <;> rfl
  · exact hend.chained.congr rfl rfl fun _ => rfl
  · exact ⟨hend.used, hnil.symm, Nat.zero_le _⟩

/-! ## A new cache -/

theorem rep_fresh (h : 0 < lc.nrElements) (hfree : lc.free = (List.range lc.nrElements).reverse)
    (hl : lc.lru = [] ∧ lc.inUse = [] ∧ lc.toBeChanged = []) (hslot : ∀ s, lc.lcSlot s = [])
    (he : ∀ i < lc.nrElements, lc.lcElement i = .fresh) (hc : lc.used = 0 ∧ lc.pendingChanges = 0) :
    Rep lc where
  elements := h
  filed := by
    have hhome : LcElement.fresh.home = .free := LcElement.home_free rfl
    refine ⟨fun k i => ?_, fun k => ?_, fun i hi => ?_⟩
    · cases k with
      | free =>
          simp only [LruCache.listOf, hfree, List.mem_reverse, List.mem_range]
          refine ⟨fun hi => ⟨hi, by rw [he i hi, hhome]⟩, fun hi => hi.1⟩
      | lru =>
          simp only [LruCache.listOf, hl.1, List.not_mem_nil, false_iff]
          exact fun hi => nomatch (he i hi.1 ▸ hi.2).symm.trans hhome
      | inUse =>
          simp only [LruCache.listOf, hl.2.1, List.not_mem_nil, false_iff]
          exact fun hi => nomatch (he i hi.1 ▸ hi.2).symm.trans hhome
      | toBeChanged =>
          simp only [LruCache.listOf, hl.2.2, List.not_mem_nil, false_iff]
          exact fun hi => nomatch (he i hi.1 ▸ hi.2).symm.trans hhome
    · cases k with
      | free =>
          simp only [LruCache.listOf, hfree]
          exact List.nodup_reverse.mpr List.nodup_range
      | lru => simp [LruCache.listOf, hl.1]
      | inUse => simp [LruCache.listOf, hl.2.1]
      | toBeChanged => simp [LruCache.listOf, hl.2.2]
    · rw [he i hi]
      exact ⟨fun _ => rfl, fun _ => rfl⟩
  chained := by
    refine ⟨fun s i => ?_, fun s => ?_, fun i hi j hj hij hf => ?_⟩
    · rw [hslot]
      simp only [List.not_mem_nil, false_iff]
      rintro ⟨hi, hf, -⟩
      rw [he i hi] at hf
      exact hf rfl
    · rw [hslot]
      exact List.nodup_nil
    · rw [he i hi] at hf
      exact absurd rfl hf
  counted := ⟨by rw [hc.1, hl.2.1, hl.2.2]; rfl, by rw [hc.2, hl.2.2]; rfl, by rw [hc.2]; exact Nat.zero_le _⟩

end Drbd.Lru
