import Drbd.Admission.Intervals
import Drbd.Admission.Theorems
import Drbd.Lru.Lemmas.Refs

/-!
# What the cache operations do to references

Each operation on the activity log changes the references to the extents it is called for, and takes nothing from an
extent that is referenced: neither its label nor that it is committed.
-/

namespace Drbd.Admission

open Lib Lru

variable {lc lc' lc'' : LruCache} {enr i x : Nat}

/-- The label is there, and no change is pending for its element. -/
def Committed (lc : LruCache) (x : Nat) : Prop :=
  ∃ j < lc.nrElements, (lc.lcElement j).lcNewNumber = x ∧ (lc.lcElement j).lcNumber = x

/-- An element that is referenced keeps its label, and stays committed. -/
structure Keeps (lc lc' : LruCache) : Prop where
  nrElements : lc'.nrElements = lc.nrElements
  label : ∀ j, (lc.lcElement j).refcnt ≠ 0 → (lc'.lcElement j).lcNewNumber = (lc.lcElement j).lcNewNumber
  committed : ∀ j, (lc.lcElement j).refcnt ≠ 0 → (lc.lcElement j).lcNumber = (lc.lcElement j).lcNewNumber →
    (lc'.lcElement j).lcNumber = (lc'.lcElement j).lcNewNumber

theorem refcntOf_ne_zero (h : Rep lc) (hx : x ≠ LC_FREE) (href : refcntOf lc x ≠ 0) :
    ∃ j < lc.nrElements, (lc.lcElement j).lcNewNumber = x ∧ (lc.lcElement j).refcnt ≠ 0 := by
  by_contra hno
  push Not at hno
  by_cases hin : ∃ j < lc.nrElements, (lc.lcElement j).lcNewNumber = x
  · obtain ⟨j, hj, hnum⟩ := hin
    rw [refcntOf_of_mem h hj hx hnum] at href
    exact href (hno j hj hnum)
  · push Not at hin
    exact href (refcntOf_of_not_mem h hin)

theorem Committed.unique (h : Rep lc) (hx : x ≠ LC_FREE) (hc : Committed lc x) (hi : i < lc.nrElements)
    (hnum : (lc.lcElement i).lcNewNumber = x) : (lc.lcElement i).lcNumber = x := by
  obtain ⟨j, hj, hnumj, hcj⟩ := hc
  rw [h.chained.uniq i hi j hj (hnum.trans hnumj.symm) (hnum ▸ hx)]
  exact hcj

theorem Keeps.committedOf (hk : Keeps lc lc') (h : Rep lc) (hx : x ≠ LC_FREE) (href : refcntOf lc x ≠ 0)
    (hc : Committed lc x) : Committed lc' x := by
  obtain ⟨j, hj, hnum, hrefj⟩ := refcntOf_ne_zero h hx href
  have hnum' := (hk.label j hrefj).trans hnum
  have hcj := hc.unique h hx hj hnum
  exact ⟨j, hk.nrElements ▸ hj, hnum', (hk.committed j hrefj (hcj.trans hnum.symm)).trans hnum'⟩

theorem Keeps.of_same (hs : SameLabels lc lc') : Keeps lc lc' where
  nrElements := hs.2.2
  label j _ := by rw [hs.1]
  committed j _ hc := by
    rw [hs.1]
    exact hc

theorem Keeps.trans (h : Keeps lc lc') (h' : Keeps lc' lc'')
    (halive : ∀ j, (lc.lcElement j).refcnt ≠ 0 → (lc'.lcElement j).refcnt ≠ 0) : Keeps lc lc'' where
  nrElements := h'.nrElements.trans h.nrElements
  label j hj := (h'.label j (halive j hj)).trans (h.label j hj)
  committed j hj hc := h'.committed j (halive j hj) (h.committed j hj hc)

/-- No element gets another number. -/
structure SameNumbers (lc lc' : LruCache) : Prop where
  nrElements : lc'.nrElements = lc.nrElements
  number : ∀ j, (lc'.lcElement j).lcNumber = (lc.lcElement j).lcNumber
  newNumber : ∀ j, (lc'.lcElement j).lcNewNumber = (lc.lcElement j).lcNewNumber

theorem SameNumbers.trans (h : SameNumbers lc lc') (h' : SameNumbers lc' lc'') : SameNumbers lc lc'' :=
  ⟨h'.nrElements.trans h.nrElements, fun j => (h'.number j).trans (h.number j),
    fun j => (h'.newNumber j).trans (h.newNumber j)⟩

theorem SameNumbers.keeps (h : SameNumbers lc lc') : Keeps lc lc' :=
  ⟨h.nrElements, fun j _ => h.newNumber j, fun j _ hc => by rw [h.number, h.newNumber, hc]⟩

theorem SameNumbers.committed (h : SameNumbers lc lc') (hc : Committed lc x) : Committed lc' x := by
  obtain ⟨j, hj, hnum, hcj⟩ := hc
  exact ⟨j, h.nrElements ▸ hj, (h.newNumber j).trans hnum, (h.number j).trans hcj⟩

theorem SameNumbers.of_stores {n : Nat} (hs : StoresElement lc lc' i { lc.lcElement i with refcnt := n }) :
    SameNumbers lc lc' := by
  have hsame : ∀ j, (lc'.lcElement j).lcNewNumber = (lc.lcElement j).lcNewNumber ∧
      (lc'.lcElement j).lcNumber = (lc.lcElement j).lcNumber := by
    intro j
    rw [hs.1]
    by_cases hj : j = i
    · rw [hj, Function.update_self]
      exact ⟨rfl, rfl⟩
    · rw [Function.update_of_ne hj]
      exact ⟨rfl, rfl⟩
  exact ⟨hs.2.2, fun j => (hsame j).2, fun j => (hsame j).1⟩

theorem Keeps.of_recycles (hidle : (lc.lcElement i).refcnt = 0) (hrec : Recycles lc lc' i enr) : Keeps lc lc' := by
  have hother : ∀ j, (lc.lcElement j).refcnt ≠ 0 → lc'.lcElement j = lc.lcElement j := by
    intro j hj
    rw [hrec.1, Function.update_of_ne]
    rintro rfl
    exact hj hidle
  exact ⟨hrec.2.2, fun j hj => by rw [hother j hj], fun j hj hc => by rw [hother j hj]; exact hc⟩

theorem refcntOf_same (hs : SameLabels lc lc') (x : Nat) : refcntOf lc' x = refcntOf lc x := by
  unfold refcntOf lcFindAny
  rw [hs.1, hs.2.1, hs.2.2]

/-! ## Getting a reference -/

theorem Ready.getFlags {mayChange mayUse : Bool} {r : Option Nat} (h : Ready lc) (hreal : enr ≠ LC_FREE)
    (hget : lcGetFlags lc enr mayChange mayUse = some (lc', r)) : Ready lc' := by
  obtain ⟨lc₁, r₁, hget₁, hrep, _⟩ := @Rep.getFlags_cases lc enr h.rep mayChange mayUse
  rw [hget] at hget₁
  cases hget₁
  exact ⟨hrep hreal, h.starves.getFlags hget⟩

/-- One reference to `enr` more, by the element `j`. -/
structure Got (lc lc' : LruCache) (enr j : Nat) : Prop where
  keeps : Keeps lc lc'
  lt : j < lc'.nrElements
  label : (lc'.lcElement j).lcNewNumber = enr
  refs : ∀ x, x ≠ LC_FREE → refcntOf lc' x = refcntOf lc x + if x = enr then 1 else 0
  alive : ∀ k, (lc.lcElement k).refcnt ≠ 0 → (lc'.lcElement k).refcnt ≠ 0

theorem getFlags_effect {mayChange mayUse : Bool} {r : Option Nat} (h : Ready lc) (hreal : enr ≠ LC_FREE)
    (hget : lcGetFlags lc enr mayChange mayUse = some (lc', r)) :
    (r = none ∧ SameLabels lc lc') ∨
      ∃ j, r = some j ∧ Got lc lc' enr j ∧ (mayChange = false → mayUse = false → (lc'.lcElement j).lcNumber = enr) := by
  have h' := (h.getFlags hreal hget).rep
  rcases lcGetFlags_cases hget with hnone | ⟨i, hr, hfind, hcommitted, hstore⟩ | ⟨i, hr, hmiss, hidle, hrec, hchange⟩
  · exact .inl hnone
  · obtain ⟨hi, hnum⟩ := h.rep.chained.find_some hfind
    have hself : lc'.lcElement i = { lc.lcElement i with refcnt := (lc.lcElement i).refcnt + 1 } := by
      rw [hstore.1, Function.update_self]
    refine .inr ⟨i, hr, ⟨(SameNumbers.of_stores hstore).keeps, hstore.2.2 ▸ hi, by rw [hself]; exact hnum,
      fun x hx => ?_, fun k hk => ?_⟩, fun _ huse => ?_⟩
    · rw [refcntOf_stores h.rep h' hi hnum hstore hx]
      split
      · rename_i hxe
        rw [refcntOf_of_mem h.rep hi hx (hnum.trans hxe.symm)]
      · rfl
    · by_cases hki : k = i
      · rw [hki, hself]
        exact Nat.succ_ne_zero _
      · rw [hstore.1, Function.update_of_ne hki]
        exact hk
    · rw [hself]
      exact (hcommitted huse).symm.trans hnum
  · have hlt : i < lc.nrElements := by
      have hmem : i ∈ lc'.lcSlot (enr % lc.nrElements) := by
        rw [hrec.2.1]
        simp [LruCache.rehash]
      have := ((h'.chained.mem _ _).1 hmem).1
      rwa [hrec.2.2] at this
    have hself : lc'.lcElement i = ⟨1, (lc.lcElement i).lcNumber, enr⟩ := by rw [hrec.1, Function.update_self]
    refine .inr ⟨i, hr, ⟨.of_recycles hidle hrec, hrec.2.2 ▸ hlt, by rw [hself], fun x hx => ?_,
      fun k hk => ?_⟩, fun hno => ?_⟩
    · exact refcntOf_recycles h.rep h' hlt hidle hmiss hreal hrec hx
    · rw [hrec.1, Function.update_of_ne]
      · exact hk
      · rintro rfl
        exact hk hidle
    · exact absurd (hchange.symm.trans hno) Bool.noConfusion

/-! ## Putting it back, and committing -/

theorem put_effect (h : Ready lc) (hreal : x ≠ LC_FREE) (hi : i < lc.nrElements)
    (hnum : (lc.lcElement i).lcNewNumber = x)
    (hc : (lc.lcElement i).lcNumber = x) (href : refcntOf lc x ≠ 0) :
    ∃ lc' cnt, lcPut lc i = some (lc', cnt) ∧ Ready lc' ∧ SameNumbers lc lc' ∧
      ∀ y, y ≠ LC_FREE → refcntOf lc y = refcntOf lc' y + if y = x then 1 else 0 := by
  have hrefi : (lc.lcElement i).refcnt ≠ 0 := by
    rw [← refcntOf_of_mem h.rep hi hreal hnum]
    exact href
  obtain ⟨lc', cnt, hput, hrep, _⟩ := h.rep.put hi hrefi (hc.trans hnum.symm)
  obtain ⟨_, _, hstore⟩ := lcPut_cases hput
  refine ⟨lc', cnt, hput, ⟨hrep, h.starves.put hput⟩, .of_stores hstore, fun y hy => ?_⟩
  rw [refcntOf_stores h.rep hrep hi hnum hstore hy]
  split
  · rename_i hyx
    rw [refcntOf_of_mem h.rep hi hy (hnum.trans hyx.symm)]
    omega
  · rfl

theorem committed_effect (h : Ready lc) : ∃ lc', lcCommitted lc = some lc' ∧ Ready lc' ∧ Keeps lc lc' ∧
    (∀ y, refcntOf lc' y = refcntOf lc y) ∧
      ∀ j < lc.nrElements, (lc'.lcElement j).lcNewNumber = (lc.lcElement j).lcNewNumber ∧
        (lc'.lcElement j).lcNumber = (lc'.lcElement j).lcNewNumber := by
  obtain ⟨lc', hc, hrep, _⟩ := h.rep.committed
  have hready : Ready lc' := ⟨hrep, h.starves.committed hc⟩
  obtain ⟨hall, hslot, hnr⟩ := commitAll lc.toBeChanged lc
  refine ⟨lc', hc, hready, ?_⟩
  unfold lcCommitted at hc
  split at hc
  · cases hc
  cases hc
  refine ⟨⟨hnr, fun j _ => (hall j).1, fun j _ hcj => (hall j).2.2 (.inl hcj)⟩, fun y => ?_, fun j hj => ?_⟩
  · unfold refcntOf lcFindAny
    dsimp only
    simp only [hslot, hnr, or_true, if_true, fun j => (hall j).1, fun j => (hall j).2.1]
  · refine ⟨(hall j).1, (hall j).2.2 ?_⟩
    by_cases hcj : (lc.lcElement j).lcNumber = (lc.lcElement j).lcNewNumber
    · exact .inl hcj
    · refine .inr ((h.rep.filed.mem .toBeChanged j).mpr ⟨hj, ?_⟩)
      have hplain := h.rep.filed.plain j hj
      have h0 : (lc.lcElement j).refcnt ≠ 0 := fun h0 => hcj (hplain.1 h0)
      exact LcElement.home_toBeChanged (fun hf => h0 (hplain.2 hf)) h0 hcj

/-- When nothing is pending, what is referenced is committed. -/
theorem committed_of_nothingPending (h : Ready lc) (hpending : lc.pendingChanges = 0) (hx : x ≠ LC_FREE)
    (href : refcntOf lc x ≠ 0) : Committed lc x := by
  obtain ⟨j, hj, hnum, hrefj⟩ := refcntOf_ne_zero h.rep hx href
  refine ⟨j, hj, hnum, ?_⟩
  by_contra hc
  have hne : (lc.lcElement j).lcNumber ≠ (lc.lcElement j).lcNewNumber := fun heq => hc (heq.trans hnum)
  have hmem : j ∈ lc.toBeChanged := (h.rep.filed.mem .toBeChanged j).mpr
    ⟨hj, LcElement.home_toBeChanged (hnum ▸ hx) hrefj hne⟩
  have hlen := h.rep.counted.pending
  rw [hpending, eq_comm, List.length_eq_zero_iff] at hlen
  rw [hlen] at hmem
  cases hmem

theorem Ready.setLocked (h : Ready lc) (dirty locked : Bool) : Ready { lc with lcDirty := dirty, lcLocked := locked } :=
  ⟨h.rep.congr ⟨rfl, fun k => by cases k <;> rfl, rfl, rfl, rfl, rfl, rfl⟩, h.starves⟩

/-! ## All extents of an interval -/

/-- Whatever it is given, the checkout takes nothing from anybody. -/
theorem checkout_keeps {xs : List Nat} (h : Ready lc) (hreal : ∀ x ∈ xs, x ≠ LC_FREE) (hc : checkout lc xs = some lc') :
    Ready lc' ∧ Keeps lc lc' := by
  induction xs generalizing lc with
  | nil =>
      cases hc
      exact ⟨h, .of_same ⟨rfl, rfl, rfl⟩⟩
  | cons enr rest ih =>
      rw [checkout] at hc
      rcases hget : lcGetCumulative lc enr with _ | ⟨lc₁, r⟩
      · rw [hget] at hc
        cases hc
      rw [hget] at hc
      have hreal₁ := hreal enr List.mem_cons_self
      obtain ⟨hready, hkeeps⟩ := ih (h.getFlags hreal₁ hget) (fun x hx => hreal x (List.mem_cons_of_mem _ hx)) hc
      rcases getFlags_effect h hreal₁ hget with ⟨_, hsame⟩ | ⟨j, _, hgot, _⟩
      · exact ⟨hready, (Keeps.of_same hsame).trans hkeeps fun k hk => by rw [hsame.1]; exact hk⟩
      · exact ⟨hready, hgot.keeps.trans hkeeps hgot.alive⟩

theorem lcFind_of_committed (h : Rep lc) (hx : x ≠ LC_FREE) (hc : Committed lc x) :
    ∃ i < lc.nrElements, lcFind lc x = some i ∧ (lc.lcElement i).lcNewNumber = x ∧ (lc.lcElement i).lcNumber = x := by
  rcases hfind : lcFindAny lc x true with _ | i
  · obtain ⟨j, hj, hnum, _⟩ := hc
    exact absurd hnum (h.chained.find_none hx hfind j hj)
  · obtain ⟨hi, hnum⟩ := h.chained.find_some hfind
    have hci := hc.unique h hx hi hnum
    refine ⟨i, hi, ?_, hnum, hci⟩
    unfold lcFindAny at hfind
    unfold lcFind lcFindAny
    split at hfind
    · cases hfind
    · rename_i k hk
      rw [if_pos (.inr rfl)] at hfind
      cases hfind
      exact if_pos (.inl (hnum.trans hci.symm))

/-- Completing an interval whose extents are committed and referenced. -/
theorem completeExtents_ok {xs : List Nat} (h : Ready lc) (hnodup : xs.Nodup) (hreal : ∀ x ∈ xs, x ≠ LC_FREE)
    (hxs : ∀ x ∈ xs, Committed lc x ∧ refcntOf lc x ≠ 0) :
    ∃ lc', completeExtents lc xs = some (lc', true) ∧ Ready lc' ∧ SameNumbers lc lc' ∧
      ∀ y, y ≠ LC_FREE → refcntOf lc y = refcntOf lc' y + if y ∈ xs then 1 else 0 := by
  induction xs generalizing lc with
  | nil => exact ⟨lc, rfl, h, ⟨rfl, fun _ => rfl, fun _ => rfl⟩, fun y _ => by simp⟩
  | cons enr rest ih =>
      obtain ⟨hnot, hnodup⟩ := List.nodup_cons.1 hnodup
      obtain ⟨hc, href⟩ := hxs enr List.mem_cons_self
      have hreal₁ := hreal enr List.mem_cons_self
      obtain ⟨i, hi, hfind, hnum, hci⟩ := lcFind_of_committed h.rep hreal₁ hc
      obtain ⟨lc₁, cnt, hput, hready, hsame, hrefs⟩ := put_effect h hreal₁ hi hnum hci href
      obtain ⟨lc', hrest, hready', hsame', hrefs'⟩ := ih hready hnodup
        (fun x hx => hreal x (List.mem_cons_of_mem _ hx)) fun x hx => by
          obtain ⟨hcx, hrefx⟩ := hxs x (List.mem_cons_of_mem _ hx)
          refine ⟨hsame.committed hcx, ?_⟩
          have hother := hrefs x (hreal x (List.mem_cons_of_mem _ hx))
          rw [if_neg (by rintro rfl; exact hnot hx)] at hother
          omega
      refine ⟨lc', ?_, hready', hsame.trans hsame', fun y hy => ?_⟩
      · rw [completeExtents, hfind]
        dsimp only
        rw [hput]
        exact hrest
      · rw [hrefs y hy, hrefs' y hy]
        by_cases hye : y = enr
        · subst hye
          rw [if_neg hnot, if_pos rfl, if_pos List.mem_cons_self]
        · simp only [List.mem_cons, hye, false_or, if_false, Nat.add_zero]

end Drbd.Admission
