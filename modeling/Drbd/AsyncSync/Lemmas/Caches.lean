import Drbd.AsyncSync.Defs
import Drbd.Lru.Lemmas.Refs
import Drbd.Noblock.Lemmas.Cache

/-!
# The references to extents

What each function does to the number of references, extent by extent.
-/

namespace Drbd.AsyncSync

open Lru Noblock

variable {lc lc' : LruCache} {enr i : Nat}

/-! ## The resync extents -/

theorem bmeGet_refs (h : Settled lc) (hf : enr ≠ LC_FREE) (hget : bmeGet lc enr = some (lc', i)) :
    Settled lc' ∧ (lc'.lcElement i).lcNewNumber = enr ∧ refs lc' enr = refs lc enr + 1 ∧
      ∀ x, x ≠ LC_FREE → x ≠ enr → refs lc' x = refs lc x := by
  unfold bmeGet at hget
  split at hget
  · rename_i lc₁ j hlc
    obtain ⟨hl, hnum, henr, hothers⟩ := lcGet_refs h.labelled hf hlc
    obtain ⟨hr, _⟩ | ⟨k, hr, hfind, _, hstore⟩ | ⟨k, hr, hmiss, _⟩ := lcGet_cases hlc
    · cases hr
    · -- it was there, and stays settled
      cases hr
      have hsettled : ∀ k, (lc₁.lcElement k).lcNumber = (lc₁.lcElement k).lcNewNumber := by
        intro k
        rw [hstore.1]
        by_cases hk : k = j
        · rw [hk, Function.update_self]
          exact h.settled j
        · rw [Function.update_of_ne hk]
          exact h.settled k
      rw [if_neg (by rw [hsettled, hnum]; exact not_ne_iff.2 rfl)] at hget
      cases hget
      exact ⟨⟨hl, hsettled⟩, hnum, henr, hothers⟩
    · -- it is new, and committed
      cases hr
      have hrec := lcGet_recycled hlc hmiss
      have hself : lc₁.lcElement j = ⟨1, (lc.lcElement j).lcNumber, enr⟩ := by
        rw [hrec.stores.1, Function.update_self]
      have hold : (lc₁.lcElement j).lcNumber ≠ enr := by
        rw [hself]
        intro heq
        exact h.labelled.find_none hf hmiss ⟨j, by rw [← h.settled]; exact heq⟩
      rw [if_pos hold, Option.map_eq_some_iff] at hget
      obtain ⟨lc₂, hcommit, heq⟩ := hget
      cases heq
      unfold lcCommitted at hcommit
      split at hcommit
      · cases hcommit
      · obtain ⟨hall, hslot, hnr⟩ := commitAll lc₁.toBeChanged lc₁
        cases hcommit
        refine ⟨⟨hl.congr (fun k => (hall k).1) hslot hnr, fun k => (hall k).2.2 ?_⟩, ?_, ?_, fun x hx hne => ?_⟩
        · by_cases hk : k = i
          · refine .inr ?_
            rw [hk, hrec.toBeChanged]
            exact List.mem_cons_self
          · refine .inl ?_
            rw [hrec.stores.1, Function.update_of_ne hk]
            exact h.settled k
        · exact (hall i).1.trans hnum
        · rw [← henr]
          exact refs_congr (fun k => (hall k).1) (fun k => (hall k).2.1) hslot hnr enr
        · rw [← hothers x hx hne]
          exact refs_congr (fun k => (hall k).1) (fun k => (hall k).2.1) hslot hnr x
  · cases hget

theorem bmeWait_refs (h : Settled lc) (hwait : bmeWait lc enr = some lc') :
    Settled lc' ∧ ∀ x, refs lc' x = refs lc x := by
  unfold bmeWait at hwait
  split at hwait
  · rename_i lc₁ hlc
    cases hwait
    obtain ⟨_, hsame⟩ | ⟨k, hr, _⟩ | ⟨k, hr, _⟩ := lcGet_cases hlc
    · exact ⟨h.same hsame, hsame.refs⟩
    · cases hr
    · cases hr
  · cases hwait

/-- The reference that is there goes. -/
theorem drbdRsCompleteIo_refs {sector : Nat} (h : Settled lc) (hf : bmSectToExt sector ≠ LC_FREE)
    (hheld : 0 < refs lc (bmSectToExt sector)) (hio : drbdRsCompleteIo lc sector = some lc') :
    Settled lc' ∧ (∀ j, (lc'.lcElement j).lcNewNumber = (lc.lcElement j).lcNewNumber) ∧
      refs lc' (bmSectToExt sector) + 1 = refs lc (bmSectToExt sector) ∧
      ∀ x, x ≠ LC_FREE → x ≠ bmSectToExt sector → refs lc' x = refs lc x := by
  unfold drbdRsCompleteIo at hio
  rw [h.lcFind_eq] at hio
  cases hfind : lcFindAny lc (bmSectToExt sector) true with
  | none =>
      rw [refs, hfind] at hheld
      exact absurd hheld (Nat.lt_irrefl 0)
  | some i =>
      rw [refs, hfind] at hheld
      rw [hfind] at hio
      dsimp only at hio
      rw [if_neg (Nat.pos_iff_ne_zero.1 hheld), Option.map_eq_some_iff] at hio
      obtain ⟨⟨lc₁, cnt⟩, hput, heq⟩ := hio
      cases heq
      exact h.put hf (lcFindAny_number hfind) hput

/-! ## The extents of `lru_noblock` -/

/-- The elements `lc_get` can recycle. -/
def spare (lc : LruCache) : List Nat := lc.free ++ lc.lru

/-- Between two lock sections nothing is pending, and only elements without a reference are on the lists
`lc_get` takes them from. -/
structure NoblockOk (lc : LruCache) : Prop extends CacheOk lc where
  unlocked : lc.lcLocked = false
  pending : lc.pendingChanges = 0
  most : 0 < lc.maxPendingChanges
  nodup : (spare lc).Nodup
  idle : ∀ i ∈ spare lc, (lc.lcElement i).refcnt = 0

theorem NoblockOk.lcCreate {maxPendingChanges : Nat} (hmost : 0 < maxPendingChanges) (eCount : Nat) :
    NoblockOk (lcCreate maxPendingChanges eCount) where
  toCacheOk := CacheOk.lcCreate maxPendingChanges eCount
  unlocked := rfl
  pending := rfl
  most := hmost
  nodup := by
    show ((List.range eCount).reverse ++ []).Nodup
    rw [List.append_nil]
    exact List.nodup_reverse.2 List.nodup_range
  idle _ _ := rfl

theorem NoblockOk.refs_zero_iff (h : NoblockOk lc) (hf : enr ≠ LC_FREE) :
    refs lc enr = 0 ↔ lcFindAny lc enr true = none := by
  unfold refs
  cases hfind : lcFindAny lc enr true with
  | none => simp
  | some i =>
      have hnum := lcFindAny_number hfind
      simp only [reduceCtorEq, iff_false]
      exact h.busy i (by rw [hnum]; exact hf)

theorem erase_both {a b : List Nat} (h : (a ++ b).Nodup) : a.erase i ++ b.erase i = (a ++ b).erase i := by
  rw [List.erase_append]
  split
  · rename_i ha
    rw [List.erase_of_not_mem (l := b) fun hb => (List.disjoint_of_nodup_append h) ha hb]
  · rename_i ha
    rw [List.erase_of_not_mem ha]

/-- `lc_get` gives an element when there is one. -/
theorem lcGet_gives {r : Option Nat} (hstarving : lc.lcStarving = false)
    (hlabel : ∀ i, (lc.lcElement i).lcNumber = (lc.lcElement i).lcNewNumber) (hunlocked : lc.lcLocked = false)
    (hpending : lc.pendingChanges < lc.maxPendingChanges)
    (hroom : lcFindAny lc enr true = none → lcUnusedElement lc ≠ none)
    (h : lcGet lc enr = some (lc', r)) : ∃ i, r = some i := by
  unfold lcGet lcGetFlags at h
  split at h
  · cases h
  rw [if_neg (by rw [hstarving]; decide)] at h
  cases hfind : lcFindAny lc enr true with
  | some i =>
      rw [hfind] at h
      dsimp only at h
      rw [if_neg (not_ne_iff.2 (hlabel i).symm)] at h
      cases h
      exact ⟨i, rfl⟩
  | none =>
      rw [hfind] at h
      have hunused : lcUnusedElement { lc with misses := lc.misses + 1, lcDirty := true } ≠ none := hroom hfind
      dsimp only at h
      rw [if_neg (by decide), if_neg (by rw [hunlocked]; decide), if_neg hunused,
        if_neg (Nat.not_le_of_lt hpending)] at h
      split at h
      · cases h
      · split at h
        · cases h
        · cases h
          exact ⟨_, rfl⟩

/-- What `lc_get` of a label in the cache does besides. -/
theorem lcGet_hit {r : Option Nat} (hstarving : lc.lcStarving = false)
    (hlabel : ∀ i, (lc.lcElement i).lcNumber = (lc.lcElement i).lcNewNumber)
    (hfind : lcFindAny lc enr true = some i) (h : lcGet lc enr = some (lc', r)) :
    (lc'.free = lc.free.erase i ∧ lc'.lru = lc.lru.erase i) ∧ lc'.lcLocked = lc.lcLocked ∧
      lc'.pendingChanges = lc.pendingChanges ∧ lc'.maxPendingChanges = lc.maxPendingChanges ∧
      lc'.lcStarving = lc.lcStarving := by
  unfold lcGet lcGetFlags at h
  split at h
  · cases h
  rw [if_neg (by rw [hstarving]; decide), hfind] at h
  dsimp only at h
  rw [if_neg (not_ne_iff.2 (hlabel i).symm)] at h
  cases h
  exact ⟨⟨rfl, rfl⟩, rfl, rfl, rfl, rfl⟩

theorem lcPut_lists {cnt : Nat} (h : lcPut lc i = some (lc', cnt)) :
    lc'.lcLocked = lc.lcLocked ∧ lc'.pendingChanges = lc.pendingChanges ∧
      lc'.maxPendingChanges = lc.maxPendingChanges ∧
      (cnt = 0 ∧ lc'.free = lc.free.erase i ∧ lc'.lru = i :: lc.lru.erase i ∨
        lc'.free = lc.free ∧ lc'.lru = lc.lru) := by
  unfold lcPut at h
  dsimp only at h
  split at h
  · cases h
  split at h
  · cases h
    exact ⟨rfl, rfl, rfl, .inl ⟨rfl, rfl, rfl⟩⟩
  · cases h
    exact ⟨rfl, rfl, rfl, .inr ⟨rfl, rfl⟩⟩

theorem unused_of_spare (h : 0 < (spare lc).length) : lcUnusedElement lc ≠ none := by
  unfold spare at h
  unfold lcUnusedElement
  split
  · exact Option.some_ne_none _
  · rename_i hfree
    rw [hfree, List.nil_append] at h
    rw [Ne, List.getLast?_eq_none_iff]
    exact List.ne_nil_of_length_pos h

theorem spare_of_unused (h : lcUnusedElement lc = some i) : i ∈ spare lc := by
  unfold lcUnusedElement at h
  unfold spare
  split at h
  · rename_i hfree
    cases h
    rw [hfree]
    exact List.mem_cons_self
  · exact List.mem_append_right _ (List.mem_of_getLast? h)

/-- What a cache still has room for: the extents without a reference need an element each. -/
def Room (lc : LruCache) (xs : List Nat) : Prop :=
  lc.lcStarving = false ∧ (xs.countP fun x => refs lc x = 0) ≤ (spare lc).length

/-- One round of `drbd_noblock_begin_io`. -/
theorem NoblockOk.beginExtent {ok : Bool} (h : NoblockOk lc) (hf : enr ≠ LC_FREE)
    (hstarving : lc.lcStarving = false) (hroom : refs lc enr = 0 → 0 < (spare lc).length)
    (hbegin : beginExtent lc enr = some (lc', ok)) :
    ok = true ∧ NoblockOk lc' ∧ lc'.lcStarving = false ∧ refs lc' enr = refs lc enr + 1 ∧
      (∀ x, x ≠ LC_FREE → x ≠ enr → refs lc' x = refs lc x) ∧
      (spare lc').length + (if refs lc enr = 0 then 1 else 0) = (spare lc).length := by
  have hspec := (beginExtent_spec h.toCacheOk hf hbegin).1
  unfold Noblock.beginExtent at hbegin
  split at hbegin
  · cases hbegin
  · rename_i lc₁ hget
    obtain ⟨i, hi⟩ := lcGet_gives hstarving h.settled h.unlocked (by rw [h.pending]; exact h.most)
      (fun hmiss => unused_of_spare (hroom ((h.refs_zero_iff hf).2 hmiss))) hget
    cases hi
  · rename_i lc₁ i hget
    dsimp only at hbegin
    obtain ⟨hl, hnum, henr, hothers⟩ := lcGet_refs h.labelled hf hget
    obtain ⟨hr, _⟩ | ⟨j, hr, hfind, _, hstore⟩ | ⟨j, hr, hmiss, _⟩ := lcGet_cases hget
    · cases hr
    · -- the extent is in use already
      cases hr
      have hlabel := lcFindAny_number hfind
      have hbusy := h.busy i (by rw [hlabel]; exact hf)
      have hself : lc₁.lcElement i = { lc.lcElement i with refcnt := (lc.lcElement i).refcnt + 1 } := by
        rw [hstore.1, Function.update_self]
      rw [if_neg (by rw [hself, h.settled, hlabel]; exact not_ne_iff.2 rfl)] at hbegin
      cases hbegin
      have hnot : i ∉ spare lc := fun hmem => hbusy (h.idle i hmem)
      obtain ⟨hlists, hrest⟩ := lcGet_hit hstarving h.settled hfind hget
      have hspare : spare lc' = spare lc := by
        unfold spare
        rw [hlists.1, hlists.2, erase_both h.nodup]
        exact List.erase_of_not_mem hnot
      refine ⟨rfl, ⟨hspec, hrest.1.trans h.unlocked, hrest.2.1.trans h.pending, by rw [hrest.2.2.1]; exact h.most,
        by rw [hspare]; exact h.nodup, fun j hj => ?_⟩, hrest.2.2.2.trans hstarving, henr, hothers, ?_⟩
      · rw [hspare] at hj
        have hne : j ≠ i := fun heq => hnot (by rwa [heq] at hj)
        rw [hstore.1, Function.update_of_ne hne]
        exact h.idle j hj
      · rw [hspare, if_neg]
        · rfl
        · rw [h.labelled.refs_eq hf hlabel]
          exact hbusy
    · -- a spare element is taken for it
      cases hr
      have hrec := lcGet_recycled hget hmiss
      have hself : lc₁.lcElement i = ⟨1, (lc.lcElement i).lcNumber, enr⟩ := by
        rw [hrec.stores.1, Function.update_self]
      have hold : (lc₁.lcElement i).lcNumber ≠ enr := by
        rw [hself]
        intro heq
        exact h.labelled.find_none hf hmiss ⟨i, by rw [← h.settled]; exact heq⟩
      rw [if_pos hold] at hbegin
      have hok := (Prod.mk.inj (Option.some.inj hbegin)).2
      have hlc' := (Prod.mk.inj (Option.some.inj hbegin)).1
      have helem : lc'.lcElement = Function.update lc₁.lcElement i
          { lc₁.lcElement i with lcNumber := (lc₁.lcElement i).lcNewNumber } := by
        rw [← hlc']
        rfl
      have hnodup : (lc.free.erase i ++ lc.lru.erase i).Nodup := by
        rw [erase_both h.nodup]
        exact h.nodup.erase i
      have hspare : spare lc' = (spare lc).erase i := by
        rw [← hlc']
        show lc₁.free.erase i ++ lc₁.lru.erase i = _
        rw [hrec.free, hrec.lru, erase_both hnodup, erase_both h.nodup]
        exact List.erase_of_not_mem h.nodup.not_mem_erase
      have hrefs : ∀ x, refs lc' x = refs lc₁ x := fun x => by
        refine refs_congr (fun j => ?_) (fun j => ?_) (by rw [← hlc']; rfl) (by rw [← hlc']; rfl) x
        · rw [helem]
          by_cases hj : j = i
          · rw [hj, Function.update_self]
          · rw [Function.update_of_ne hj]
        · rw [helem]
          by_cases hj : j = i
          · rw [hj, Function.update_self]
          · rw [Function.update_of_ne hj]
      have hmem := spare_of_unused hrec.unused
      refine ⟨hok.symm, ⟨hspec, ?_, ?_, ?_, ?_, fun j hj => ?_⟩, ?_, (hrefs enr).trans henr,
        fun x hx hne => (hrefs x).trans (hothers x hx hne), ?_⟩
      · rw [← hlc']
        exact hrec.locked.trans h.unlocked
      · rw [← hlc']
        show lc₁.pendingChanges - 1 = 0
        rw [hrec.pending, h.pending]
      · rw [← hlc']
        show 0 < lc₁.maxPendingChanges
        rw [hrec.most]
        exact h.most
      · rw [hspare]
        exact h.nodup.erase i
      · rw [hspare, h.nodup.mem_erase_iff] at hj
        rw [helem, Function.update_of_ne hj.1, hrec.stores.1, Function.update_of_ne hj.1]
        exact h.idle j hj.2
      · rw [← hlc']
        exact hrec.starving
      · rw [hspare, if_pos ((h.refs_zero_iff hf).2 hmiss), List.length_erase_of_mem hmem]
        have := List.length_pos_of_mem hmem
        omega

theorem NoblockOk.beginIo {ok : Bool} {xs : List Nat} (h : NoblockOk lc) (hf : ∀ x ∈ xs, x ≠ LC_FREE)
    (hnodup : xs.Nodup) (hroom : Room lc xs) (hio : forExtents Noblock.beginExtent lc xs = some (lc', ok)) :
    NoblockOk lc' ∧ ∀ x, x ≠ LC_FREE → refs lc' x = refs lc x + if x ∈ xs then 1 else 0 := by
  induction xs generalizing lc ok with
  | nil =>
      cases hio
      exact ⟨h, fun x _ => by rw [if_neg List.not_mem_nil]; rfl⟩
  | cons y ys ih =>
      obtain ⟨hnot, hnodup⟩ := List.nodup_cons.1 hnodup
      obtain ⟨lc₁, ok₁, oks, hy, hrest, _⟩ := forExtents_cons hio
      obtain ⟨hstarving, hcount⟩ := hroom
      rw [List.countP_cons] at hcount
      obtain ⟨_, h₁, hstarving₁, hself, hothers, hlen⟩ := h.beginExtent (hf y List.mem_cons_self) hstarving
        (fun hzero => by simp only [hzero, decide_true, if_true] at hcount; omega) hy
      have hsame : (ys.countP fun x => refs lc₁ x = 0) = ys.countP fun x => refs lc x = 0 :=
        List.countP_congr fun x hx => by
          rw [hothers x (hf x (List.mem_cons_of_mem _ hx)) fun heq => hnot (heq ▸ hx)]
      have hroom₁ : Room lc₁ ys := by
        refine ⟨hstarving₁, ?_⟩
        rw [hsame]
        by_cases hzero : refs lc y = 0
        · simp only [hzero, decide_true, if_true] at hcount hlen
          omega
        · simp only [hzero, decide_false, if_false, Bool.false_eq_true] at hcount hlen
          omega
      obtain ⟨h', hrefs⟩ := ih h₁ (fun x hx => hf x (List.mem_cons_of_mem _ hx)) hnodup hroom₁ hrest
      refine ⟨h', fun x hx => ?_⟩
      rw [hrefs x hx]
      by_cases hxy : x = y
      · rw [hxy, hself, if_neg hnot, if_pos List.mem_cons_self]
      · rw [hothers x hx hxy]
        simp only [List.mem_cons, hxy, false_or]

/-- One round of `drbd_noblock_compleate_io` when the reference is there. -/
theorem NoblockOk.compleateExtent {ok : Bool} (h : NoblockOk lc) (hf : enr ≠ LC_FREE) (hheld : 0 < refs lc enr)
    (hcompleate : compleateExtent false lc enr = some (lc', ok)) :
    NoblockOk lc' ∧ refs lc' enr + 1 = refs lc enr ∧ ∀ x, x ≠ LC_FREE → x ≠ enr → refs lc' x = refs lc x := by
  have hspec := (compleateExtent_spec h.toCacheOk hf hcompleate).1
  unfold Noblock.compleateExtent at hcompleate
  rw [h.lcFind_eq] at hcompleate
  cases hfind : lcFindAny lc enr true with
  | none =>
      rw [refs, hfind] at hheld
      exact absurd hheld (Nat.lt_irrefl 0)
  | some i =>
      have hlabel := lcFindAny_number hfind
      have hrefs := h.labelled.refs_eq hf hlabel
      rw [hrefs] at hheld ⊢
      rw [hfind] at hcompleate
      dsimp only at hcompleate
      rw [if_neg (Nat.pos_iff_ne_zero.1 hheld), if_neg (by decide)] at hcompleate
      have hnot : i ∉ spare lc := fun hmem => Nat.pos_iff_ne_zero.1 hheld (h.idle i hmem)
      split at hcompleate
      · cases hcompleate
      rename_i lc₁ cnt hput
      obtain ⟨_, hcnt, hstore⟩ := lcPut_cases hput
      obtain ⟨hl, hself, hothers⟩ := hstore.recount h.labelled hf hlabel
      obtain ⟨hlocked, hpending, hmost, hlists⟩ := lcPut_lists hput
      have hspare₁ : (spare lc₁).Nodup ∧ ∀ j ∈ spare lc₁, j = i ∧ cnt = 0 ∨ j ∈ spare lc := by
        unfold spare
        rcases hlists with ⟨hzero, hfree, hlru⟩ | ⟨hfree, hlru⟩
        · have hfree' : i ∉ lc.free := fun hmem => hnot (List.mem_append_left _ hmem)
          have hlru' : i ∉ lc.lru := fun hmem => hnot (List.mem_append_right _ hmem)
          rw [hfree, hlru, List.erase_of_not_mem hfree', List.erase_of_not_mem hlru']
          refine ⟨List.nodup_middle.2 (List.nodup_cons.2 ⟨hnot, h.nodup⟩), fun j hj => ?_⟩
          rcases List.mem_append.1 hj with hj | hj
          · exact .inr (List.mem_append_left _ hj)
          · rcases List.mem_cons.1 hj with hj | hj
            · exact .inl ⟨hj, hzero⟩
            · exact .inr (List.mem_append_right _ hj)
        · rw [hfree, hlru]
          exact ⟨h.nodup, fun j hj => .inr hj⟩
      have hidle : ∀ j ∈ spare lc₁, (lc₁.lcElement j).refcnt = 0 := by
        intro j hj
        rw [hstore.1]
        rcases hspare₁.2 j hj with ⟨hji, hzero⟩ | hj
        · rw [hji, Function.update_self]
          exact hcnt.symm.trans hzero
        · rw [Function.update_of_ne fun heq => hnot (by rwa [heq] at hj)]
          exact h.idle j hj
      split at hcompleate
      · rename_i hzero
        have hlc' := (Prod.mk.inj (Option.some.inj hcompleate)).1
        have helem : lc'.lcElement = Function.update lc₁.lcElement i
            { lc₁.lcElement i with lcNumber := LC_FREE, lcNewNumber := LC_FREE } := by
          rw [← hlc']
          rfl
        have hone : (lc₁.lcElement i).refcnt = 0 := by
          rw [hstore.1, Function.update_self]
          exact hcnt.symm.trans hzero
        have hrefs' : ∀ x, x ≠ LC_FREE → refs lc' x = refs lc₁ x := fun x hx =>
          hl.refs_store hspec.labelled helem hx (fun _ => hone) fun _ => hone
        refine ⟨⟨hspec, ?_, ?_, ?_, ?_, fun j hj => ?_⟩, ?_, fun x hx hne => (hrefs' x hx).trans (hothers x hx hne)⟩
        · rw [← hlc']
          exact hlocked.trans h.unlocked
        · rw [← hlc']
          exact hpending.trans h.pending
        · rw [← hlc']
          show 0 < lc₁.maxPendingChanges
          rw [hmost]
          exact h.most
        · rw [← hlc']
          exact hspare₁.1
        · rw [← hlc'] at hj
          rw [helem]
          by_cases hji : j = i
          · rw [hji, Function.update_self]
            exact hone
          · rw [Function.update_of_ne hji]
            exact hidle j hj
        · rw [hrefs' enr hf, hself]
          omega
      · cases hcompleate
        refine ⟨⟨hspec, hlocked.trans h.unlocked, hpending.trans h.pending, by rw [hmost]; exact h.most,
          hspare₁.1, hidle⟩, ?_, hothers⟩
        rw [hself]
        omega

theorem NoblockOk.compleateIo {ok : Bool} {xs : List Nat} (h : NoblockOk lc) (hf : ∀ x ∈ xs, x ≠ LC_FREE)
    (hnodup : xs.Nodup) (hheld : ∀ x ∈ xs, 0 < refs lc x)
    (hio : forExtents (Noblock.compleateExtent false) lc xs = some (lc', ok)) :
    NoblockOk lc' ∧ ∀ x, x ≠ LC_FREE → refs lc' x + (if x ∈ xs then 1 else 0) = refs lc x := by
  induction xs generalizing lc ok with
  | nil =>
      cases hio
      exact ⟨h, fun x _ => by rw [if_neg List.not_mem_nil]; rfl⟩
  | cons y ys ih =>
      obtain ⟨hnot, hnodup⟩ := List.nodup_cons.1 hnodup
      obtain ⟨lc₁, ok₁, oks, hy, hrest, _⟩ := forExtents_cons hio
      obtain ⟨h₁, hself, hothers⟩ := h.compleateExtent (hf y List.mem_cons_self) (hheld y List.mem_cons_self) hy
      have hsame : ∀ x ∈ ys, refs lc₁ x = refs lc x := fun x hx =>
        hothers x (hf x (List.mem_cons_of_mem _ hx)) fun heq => hnot (heq ▸ hx)
      obtain ⟨h', hrefs⟩ := ih h₁ (fun x hx => hf x (List.mem_cons_of_mem _ hx)) hnodup
        (fun x hx => by rw [hsame x hx]; exact hheld x (List.mem_cons_of_mem _ hx)) hrest
      refine ⟨h', fun x hx => ?_⟩
      have hx' := hrefs x hx
      by_cases hxy : x = y
      · rw [hxy, if_neg hnot] at hx'
        rw [hxy, if_pos List.mem_cons_self]
        omega
      · rw [hothers x hx hxy] at hx'
        simpa only [List.mem_cons, hxy, false_or] using hx'

end Drbd.AsyncSync
