import Drbd.Admission.Defs
import Drbd.Lru.Theorems
import Drbd.Noblock.Lemmas.Cache

/-!
# All or nothing

The counters are enough to promise an element for each extent, unless the activity log is locked for a
transaction: then an extent that is not there yet is refused, and the interval admitted all the same.
-/

namespace Drbd.Admission

open Lib Lru

variable {lc lc' : LruCache} {enr i : Nat}

/-! ## A cache that starves has nothing to give -/

def StarvesFull (lc : LruCache) : Prop :=
  lc.lcStarving = true → lc.free = [] ∧ lc.lru = []

theorem starvesFull_of_unused (h : lcUnusedElement lc = none) : lc.free = [] ∧ lc.lru = [] := by
  unfold lcUnusedElement at h
  split at h
  · cases h
  · rename_i hfree
    exact ⟨hfree, List.getLast?_eq_none_iff.1 h⟩

theorem StarvesFull.getFlags {mayChange mayUse : Bool} {r : Option Nat} (h : StarvesFull lc)
    (hget : lcGetFlags lc enr mayChange mayUse = some (lc', r)) : StarvesFull lc' := by
  unfold lcGetFlags at hget
  split at hget
  · cases hget
  split at hget
  · cases hget
    exact h
  rename_i hstarving
  have hno : lc.lcStarving = false := by simpa using hstarving
  have hfalse : ∀ lc' : LruCache, lc'.lcStarving = false → StarvesFull lc' :=
    fun lc' hf ht => by rw [hf] at ht; cases ht
  split at hget
  · dsimp only at hget
    split at hget
    · split at hget
      · cases hget
        exact hfalse _ hno
      · cases hget
        exact hfalse _ hno
    · cases hget
      exact hfalse _ hno
  · dsimp only at hget
    split at hget
    · cases hget
      exact hfalse _ hno
    split at hget
    · cases hget
      exact hfalse _ hno
    split at hget
    · rename_i hunused
      cases hget
      exact fun _ => starvesFull_of_unused hunused
    split at hget
    · cases hget
      exact hfalse _ hno
    split at hget
    · cases hget
    · split at hget
      · cases hget
      · cases hget
        exact hfalse _ rfl

theorem StarvesFull.put {cnt : Nat} (h : StarvesFull lc) (hput : lcPut lc i = some (lc', cnt)) :
    StarvesFull lc' := by
  unfold lcPut at hput
  dsimp only at hput
  split at hput
  · cases hput
  split at hput
  · cases hput
    intro ht
    cases ht
  · cases hput
    exact h

theorem StarvesFull.commitElement (h : StarvesFull lc) (i : Nat) : StarvesFull (commitElement lc i) := by
  intro ht
  obtain ⟨hfree, hlru⟩ := h ht
  constructor
  · show lc.free.erase i = []
    rw [hfree]
    rfl
  · show lc.lru.erase i = []
    rw [hlru]
    rfl

theorem StarvesFull.committed (h : StarvesFull lc) (hc : lcCommitted lc = some lc') : StarvesFull lc' := by
  have hfold : ∀ (l : List Nat) (lc : LruCache), StarvesFull lc → StarvesFull (l.foldl Lru.commitElement lc) := by
    intro l
    induction l with
    | nil => exact fun _ hl => hl
    | cons i l ih => exact fun lc hl => ih _ (hl.commitElement i)
  unfold lcCommitted at hc
  split at hc
  · cases hc
  · cases hc
    exact hfold _ lc h

/-- There is no unused element to delete or to label while the cache starves. -/
theorem StarvesFull.busy (h : StarvesFull lc) (hrep : Rep lc) (hi : i < lc.nrElements)
    (h0 : (lc.lcElement i).refcnt = 0) : lc.lcStarving = false := by
  by_contra hne
  obtain ⟨hfree, hlru⟩ := h (by simpa using hne)
  obtain ⟨hh, -⟩ | ⟨hh, -⟩ | ⟨-, hn, -⟩ | ⟨-, hn, -⟩ := LcElement.home_cases (hrep.filed.plain i hi)
  · have hmem : i ∈ lc.listOf .free := (hrep.filed.mem .free i).mpr ⟨hi, hh⟩
    rw [LruCache.listOf, hfree] at hmem
    cases hmem
  · have hmem : i ∈ lc.listOf .lru := (hrep.filed.mem .lru i).mpr ⟨hi, hh⟩
    rw [LruCache.listOf, hlru] at hmem
    cases hmem
  · exact hn h0
  · exact hn h0

theorem StarvesFull.apply {t : Timed} {op : Op} {r : Option Nat} (h : StarvesFull t.lc) (hrep : Rep t.lc)
    (ha : Allowed t op) (happ : apply t.lc op = some (lc', r)) : StarvesFull lc' := by
  have hfalse : ∀ lc' : LruCache, lc'.lcStarving = false → StarvesFull lc' :=
    fun lc' hf ht => by rw [hf] at ht; cases ht
  cases op with
  | get enr =>
      obtain ⟨⟨lc₁, r₁⟩, hget, heq⟩ := Option.map_eq_some_iff.1 happ
      cases heq
      exact h.getFlags hget
  | getCumulative enr =>
      obtain ⟨⟨lc₁, r₁⟩, hget, heq⟩ := Option.map_eq_some_iff.1 happ
      cases heq
      exact h.getFlags hget
  | tryGet enr =>
      obtain ⟨⟨lc₁, r₁⟩, hget, heq⟩ := Option.map_eq_some_iff.1 happ
      cases heq
      exact h.getFlags hget
  | put i =>
      obtain ⟨⟨lc₁, cnt⟩, hput, heq⟩ := Option.map_eq_some_iff.1 happ
      cases heq
      exact h.put hput
  | committed =>
      obtain ⟨lc₁, hc, heq⟩ := Option.map_eq_some_iff.1 happ
      cases heq
      exact h.committed hc
  | del i =>
      obtain ⟨lc₁, hdel, heq⟩ := Option.map_eq_some_iff.1 happ
      cases heq
      have hno := h.busy hrep ha.1 ha.2
      unfold lcDel at hdel
      split at hdel
      · cases hdel
      · cases hdel
        exact hfalse _ hno
  | set enr index =>
      obtain ⟨lc₁, hset, heq⟩ := Option.map_eq_some_iff.1 happ
      cases heq
      unfold lcSet at hset
      split at hset
      · cases hset
        exact h
      · rename_i hin
        have hno := h.busy hrep (show index.toNat < t.lc.nrElements by omega)
          (ha (by omega) (by omega)).1
        dsimp only at hset
        split at hset
        · cases hset
        · split at hset
          · cases hset
            exact hfalse _ hno
          · cases hset
            exact hfalse _ hno
  | reset =>
      cases happ
      exact hfalse _ rfl
  | tryLock =>
      cases happ
      unfold lcTryLock
      split
      · exact h
      · exact h
  | tryLockForTransaction =>
      cases happ
      exact h
  | unlock =>
      cases happ
      exact h

/-- What every run of cache operations leaves. -/
structure Ready (lc : LruCache) : Prop where
  rep : Rep lc
  starves : StarvesFull lc

theorem ready_of_run {m n : Nat} (hn : 0 < n) {ops : List Op} {t : Timed}
    (hc : Meets step Allowed (create m n) ops) (hrun : run step (create m n) ops = some t) : Ready t.lc := by
  refine run_invariant (I := fun t => Ready t.lc) (fun {s op s'} hs ha hstep => ?_)
    ⟨rep_create hn, fun ht => by cases ht⟩ hc hrun
  obtain ⟨lc', r, happ, hrep', _⟩ := hs.rep.apply ha
  have hstarves := hs.starves.apply hs.rep ha happ
  unfold step at hstep
  rw [happ] at hstep
  cases hstep
  exact ⟨hrep', hstarves⟩

/-! ## One extent -/

/-- With nothing unused, every element is counted. -/
theorem nrElements_le_used (h : Rep lc) (hfree : lc.free = []) (hlru : lc.lru = []) :
    lc.nrElements ≤ lc.used := by
  have hsub : List.range lc.nrElements ⊆ lc.inUse ++ lc.toBeChanged := by
    intro i hi
    have hi := List.mem_range.1 hi
    have hmem := (h.filed.mem (lc.lcElement i).home i).mpr ⟨hi, rfl⟩
    rw [List.mem_append]
    cases hh : (lc.lcElement i).home with
    | free =>
        rw [hh, LruCache.listOf, hfree] at hmem
        cases hmem
    | lru =>
        rw [hh, LruCache.listOf, hlru] at hmem
        cases hmem
    | inUse =>
        rw [hh] at hmem
        exact .inl hmem
    | toBeChanged =>
        rw [hh] at hmem
        exact .inr hmem
  have hle := (List.nodup_range.subperm hsub).length_le
  rw [List.length_range, List.length_append] at hle
  rw [h.counted.used]
  exact hle

theorem refcntOf_of_mem (h : Rep lc) (hi : i < lc.nrElements) (hreal : enr ≠ LC_FREE)
    (hnum : (lc.lcElement i).lcNewNumber = enr) : refcntOf lc enr = (lc.lcElement i).refcnt := by
  unfold refcntOf
  cases hfind : lcFindAny lc enr true with
  | none => exact absurd hnum (h.chained.find_none hreal hfind i hi)
  | some j =>
      obtain ⟨hj, hnumj⟩ := h.chained.find_some hfind
      rw [h.chained.uniq i hi j hj (hnum.trans hnumj.symm) (hnum ▸ hreal)]

theorem refcntOf_of_not_mem (h : Rep lc) (hno : ∀ j < lc.nrElements, (lc.lcElement j).lcNewNumber ≠ enr) :
    refcntOf lc enr = 0 := by
  unfold refcntOf
  cases hfind : lcFindAny lc enr true with
  | none => rfl
  | some j =>
      obtain ⟨hj, hnumj⟩ := h.chained.find_some hfind
      exact absurd hnumj (hno j hj)

/-- Labels that are the same, with counts that are the same, give the same references. -/
theorem refcntOf_congr (h : Rep lc) (h' : Rep lc') (hn : lc'.nrElements = lc.nrElements) (hreal : enr ≠ LC_FREE)
    (hiff : ∀ j < lc.nrElements, (lc'.lcElement j).lcNewNumber = enr ↔ (lc.lcElement j).lcNewNumber = enr)
    (hcnt : ∀ j < lc.nrElements, (lc.lcElement j).lcNewNumber = enr →
      (lc'.lcElement j).refcnt = (lc.lcElement j).refcnt) : refcntOf lc' enr = refcntOf lc enr := by
  by_cases hin : ∃ j < lc.nrElements, (lc.lcElement j).lcNewNumber = enr
  · obtain ⟨j, hj, hnum⟩ := hin
    rw [refcntOf_of_mem h hj hreal hnum, refcntOf_of_mem h' (hn ▸ hj) hreal ((hiff j hj).2 hnum), hcnt j hj hnum]
  · push Not at hin
    rw [refcntOf_of_not_mem h hin, refcntOf_of_not_mem h' fun j hj hnum =>
      hin j (hn ▸ hj) ((hiff j (hn ▸ hj)).1 hnum)]

/-- The references of an element with this label are counted anew. -/
theorem refcntOf_stores {n : Nat} (h : Rep lc) (h' : Rep lc') (hi : i < lc.nrElements)
    (hnum : (lc.lcElement i).lcNewNumber = enr) (hstore : StoresElement lc lc' i { lc.lcElement i with refcnt := n })
    {x : Nat} (hx : x ≠ LC_FREE) : refcntOf lc' x = if x = enr then n else refcntOf lc x := by
  have hlabel : ∀ j, (lc'.lcElement j).lcNewNumber = (lc.lcElement j).lcNewNumber := by
    intro j
    rw [hstore.1]
    by_cases hj : j = i
    · rw [hj, Function.update_self]
    · rw [Function.update_of_ne hj]
  by_cases hxe : x = enr
  · subst hxe
    rw [if_pos rfl, refcntOf_of_mem h' (hstore.2.2 ▸ hi) hx ((hlabel i).trans hnum), hstore.1, Function.update_self]
  · rw [if_neg hxe]
    refine refcntOf_congr h h' hstore.2.2 hx (fun j _ => by rw [hlabel]) fun j _ hj => ?_
    have hne : j ≠ i := by
      rintro rfl
      exact hxe (hj.symm.trans hnum)
    rw [hstore.1, Function.update_of_ne hne]

/-- An unused element is taken for a label that nobody has. -/
theorem refcntOf_recycles (h : Rep lc) (h' : Rep lc') (hi : i < lc.nrElements) (hidle : (lc.lcElement i).refcnt = 0)
    (hmiss : lcFindAny lc enr true = none) (hreal : enr ≠ LC_FREE) (hrec : Recycles lc lc' i enr) {x : Nat}
    (hx : x ≠ LC_FREE) : refcntOf lc' x = refcntOf lc x + if x = enr then 1 else 0 := by
  have hnew := h.chained.find_none hreal hmiss
  have hself : lc'.lcElement i = ⟨1, (lc.lcElement i).lcNumber, enr⟩ := by rw [hrec.1, Function.update_self]
  have hi' : i < lc'.nrElements := hrec.2.2 ▸ hi
  by_cases hxe : x = enr
  · subst hxe
    rw [if_pos rfl, refcntOf_of_not_mem h hnew, refcntOf_of_mem h' hi' hx (by rw [hself]), hself]
  · rw [if_neg hxe, Nat.add_zero]
    by_cases hxi : (lc.lcElement i).lcNewNumber = x
    · -- the label that is evicted had no reference
      rw [refcntOf_of_mem h hi hx hxi, hidle]
      refine refcntOf_of_not_mem h' fun j hj hnum => ?_
      by_cases hji : j = i
      · rw [hji, hself] at hnum
        exact hxe hnum.symm
      · rw [hrec.1, Function.update_of_ne hji] at hnum
        exact hji (h.chained.uniq j (hrec.2.2 ▸ hj) i hi (hnum.trans hxi.symm) (hnum ▸ hx))
    · refine refcntOf_congr h h' hrec.2.2 hx (fun j _ => ?_) fun j _ hj => ?_
      · by_cases hji : j = i
        · rw [hji, hself]
          exact ⟨fun hc => absurd hc.symm hxe, fun hc => absurd hc hxi⟩
        · rw [hrec.1, Function.update_of_ne hji]
      · have hji : j ≠ i := by
          rintro rfl
          exact hxi hj
        rw [hrec.1, Function.update_of_ne hji]

/-- What a successful `lc_get_cumulative` does. -/
structure Checked (lc lc' : LruCache) (enr : Nat) : Prop where
  rep : Rep lc'
  starving : lc'.lcStarving = false
  locked : lc'.lcLocked = lc.lcLocked
  nrElements : lc'.nrElements = lc.nrElements
  max : lc'.maxPendingChanges = lc.maxPendingChanges
  used : lc'.used ≤ lc.used + 1
  pending : lc'.pendingChanges ≤ lc.pendingChanges + 1
  refs : ∀ x, x ≠ LC_FREE → refcntOf lc' x = refcntOf lc x + if x = enr then 1 else 0
  known : lcFindAny lc enr true ≠ none → ∀ j, (lc'.lcElement j).lcNewNumber = (lc.lcElement j).lcNewNumber

/-- One more reference to an element that has the label. -/
theorem Checked.hit (h : Rep lc) (h' : Rep lc') (hi : i < lc.nrElements)
    (hnum : (lc.lcElement i).lcNewNumber = enr)
    (hstore : StoresElement lc lc' i { lc.lcElement i with refcnt := (lc.lcElement i).refcnt + 1 })
    (hstarving : lc'.lcStarving = false) (hlocked : lc'.lcLocked = lc.lcLocked)
    (hmax : lc'.maxPendingChanges = lc.maxPendingChanges) (hused : lc'.used ≤ lc.used + 1)
    (hpending : lc'.pendingChanges ≤ lc.pendingChanges + 1) : Checked lc lc' enr := by
  have hlabel : ∀ j, (lc'.lcElement j).lcNewNumber = (lc.lcElement j).lcNewNumber := by
    intro j
    rw [hstore.1]
    by_cases hj : j = i
    · rw [hj, Function.update_self]
    · rw [Function.update_of_ne hj]
  refine ⟨h', hstarving, hlocked, hstore.2.2, hmax, hused, hpending, fun x hx => ?_, fun _ => hlabel⟩
  rw [refcntOf_stores h h' hi hnum hstore hx]
  split
  · rename_i hxe
    rw [refcntOf_of_mem h hi hx (hnum.trans hxe.symm)]
  · rfl

theorem Checked.recycled (h : Rep lc) (h' : Rep lc') (hi : i < lc.nrElements)
    (hidle : (lc.lcElement i).refcnt = 0) (hmiss : lcFindAny lc enr true = none) (hreal : enr ≠ LC_FREE)
    (hrec : Recycles lc lc' i enr) (hstarving : lc'.lcStarving = false) (hlocked : lc'.lcLocked = lc.lcLocked)
    (hmax : lc'.maxPendingChanges = lc.maxPendingChanges) (hused : lc'.used ≤ lc.used + 1)
    (hpending : lc'.pendingChanges ≤ lc.pendingChanges + 1) : Checked lc lc' enr :=
  ⟨h', hstarving, hlocked, hrec.2.2, hmax, hused, hpending,
    fun _ hx => refcntOf_recycles h h' hi hidle hmiss hreal hrec hx, fun hfound => absurd hmiss hfound⟩

theorem getCumulative_checked (h : Rep lc) (hreal : enr ≠ LC_FREE) (hstarving : lc.lcStarving = false)
    (hroom : lcFindAny lc enr true ≠ none ∨ lc.lcLocked = false ∧ lc.used < lc.nrElements ∧
      lc.pendingChanges < lc.maxPendingChanges) :
    ∃ lc' r, lcGetCumulative lc enr = some (lc', r) ∧ Checked lc lc' enr := by
  obtain ⟨lc', r, hget, hrep, _⟩ := @Rep.getFlags_cases lc enr h true true
  have hrep := hrep hreal
  refine ⟨lc', r, hget, ?_⟩
  unfold lcGetFlags at hget
  rw [if_neg (Nat.pos_iff_ne_zero.mp h.elements), if_neg (by rw [hstarving]; decide)] at hget
  cases hfind : lcFindAny lc enr true with
  | some i =>
      obtain ⟨hi, hnum⟩ := h.chained.find_some hfind
      rw [hfind] at hget
      dsimp only at hget
      split at hget
      · rw [if_pos rfl] at hget
        cases hget
        exact Checked.hit h hrep hi hnum ⟨rfl, rfl, rfl⟩ hstarving rfl rfl (Nat.le_succ _) (Nat.le_succ _)
      · cases hget
        refine Checked.hit h hrep hi hnum ⟨rfl, rfl, rfl⟩ hstarving rfl rfl ?_ (Nat.le_succ _)
        show (if (lc.lcElement i).refcnt = 0 then lc.used + 1 else lc.used) ≤ lc.used + 1
        split <;> omega
  | none =>
      obtain ⟨hlock, hused, hpend⟩ := hroom.resolve_left fun hne => hne hfind
      have hunused : lcUnusedElement lc ≠ none := by
        intro hnone
        obtain ⟨hfree, hlru⟩ := starvesFull_of_unused hnone
        have hle := nrElements_le_used h hfree hlru
        omega
      obtain ⟨i, hi⟩ := Option.ne_none_iff_exists'.1 hunused
      obtain ⟨hlt, hidle⟩ := h.unused hi
      rw [hfind] at hget
      dsimp only at hget
      have hunused : ¬ lcUnusedElement { lc with misses := lc.misses + 1, lcDirty := true } = none := hunused
      rw [if_neg (by decide), if_neg (by rw [hlock]; decide), if_neg hunused,
        if_neg (Nat.not_le_of_lt hpend)] at hget
      unfold lcPrepareForChange at hget
      rw [show lcUnusedElement { lc with misses := lc.misses + 1, lcDirty := true } = some i from hi] at hget
      dsimp only at hget
      rw [if_neg] at hget
      · cases hget
        refine Checked.recycled h hrep hlt hidle hfind hreal ⟨?_, rfl, rfl⟩ rfl rfl rfl (le_refl _) (le_refl _)
        simp [LruCache.setElement, LruCache.moveToBeChanged, LruCache.rehash, LruCache.unlink]
      · show ¬ (Function.update lc.lcElement i { lc.lcElement i with lcNewNumber := enr } i).refcnt ≠ 0
        rw [Function.update_self]
        exact not_ne_iff.mpr hidle

/-! ## All extents -/

theorem lcFindAny_ne_none_iff (h : Rep lc) (hreal : enr ≠ LC_FREE) :
    lcFindAny lc enr true ≠ none ↔ ∃ j < lc.nrElements, (lc.lcElement j).lcNewNumber = enr := by
  constructor
  · intro hne
    obtain ⟨j, hj⟩ := Option.ne_none_iff_exists'.1 hne
    exact ⟨j, h.chained.find_some hj⟩
  · rintro ⟨j, hj, hnum⟩ hnone
    exact h.chained.find_none hreal hnone j hj hnum

/-- With room for each extent, or with all of them there, each gets a reference. -/
theorem checkout_checked {xs : List Nat} (h : Rep lc) (hstarving : lc.lcStarving = false) (hnodup : xs.Nodup)
    (hreal : ∀ x ∈ xs, x ≠ LC_FREE)
    (hroom : (∀ x ∈ xs, lcFindAny lc x true ≠ none) ∨ lc.lcLocked = false ∧
      xs.length ≤ lc.nrElements - lc.used ∧ xs.length ≤ lc.maxPendingChanges - lc.pendingChanges) :
    ∃ lc', checkout lc xs = some lc' ∧
      ∀ x, x ≠ LC_FREE → refcntOf lc' x = refcntOf lc x + if x ∈ xs then 1 else 0 := by
  induction xs generalizing lc with
  | nil => exact ⟨lc, rfl, fun x _ => by simp⟩
  | cons enr rest ih =>
      obtain ⟨hnot, hnodup⟩ := List.nodup_cons.1 hnodup
      have hone : lcFindAny lc enr true ≠ none ∨ lc.lcLocked = false ∧ lc.used < lc.nrElements ∧
          lc.pendingChanges < lc.maxPendingChanges := by
        rcases hroom with hall | ⟨hlock, hused, hpend⟩
        · exact .inl (hall enr List.mem_cons_self)
        · rw [List.length_cons] at hused hpend
          exact .inr ⟨hlock, by omega, by omega⟩
      obtain ⟨lc₁, r, hget, hchecked⟩ := getCumulative_checked h (hreal enr List.mem_cons_self) hstarving hone
      have hrealRest : ∀ x ∈ rest, x ≠ LC_FREE := fun x hx => hreal x (List.mem_cons_of_mem _ hx)
      have hroom₁ : (∀ x ∈ rest, lcFindAny lc₁ x true ≠ none) ∨ lc₁.lcLocked = false ∧
          rest.length ≤ lc₁.nrElements - lc₁.used ∧
          rest.length ≤ lc₁.maxPendingChanges - lc₁.pendingChanges := by
        rcases hroom with hall | ⟨hlock, hused, hpend⟩
        · refine .inl fun x hx => (lcFindAny_ne_none_iff hchecked.rep (hrealRest x hx)).2 ?_
          obtain ⟨j, hj, hnum⟩ := (lcFindAny_ne_none_iff h (hrealRest x hx)).1 (hall x (List.mem_cons_of_mem _ hx))
          exact ⟨j, hchecked.nrElements ▸ hj, (hchecked.known (hall enr List.mem_cons_self) j).trans hnum⟩
        · have h₁ := hchecked.used
          have h₂ := hchecked.pending
          have h₃ := hchecked.nrElements
          have h₄ := hchecked.max
          rw [List.length_cons] at hused hpend
          exact .inr ⟨hchecked.locked.trans hlock, by omega, by omega⟩
      obtain ⟨lc', hrest, hrefs⟩ := ih hchecked.rep hchecked.starving hnodup hrealRest hroom₁
      refine ⟨lc', ?_, fun x hx => ?_⟩
      · rw [checkout, hget]
        exact hrest
      · rw [hrefs x hx, hchecked.refs x hx]
        by_cases hxe : x = enr
        · subst hxe
          rw [if_pos rfl, if_neg hnot, if_pos List.mem_cons_self, Nat.add_zero]
        · simp only [hxe, List.mem_cons, false_or, if_false, Nat.add_zero]

/-- While it is locked, the cache keeps its labels. -/
theorem getCumulative_locked (h : Rep lc) (hreal : enr ≠ LC_FREE) (hlock : lc.lcLocked = true) :
    ∃ lc' r, lcGetCumulative lc enr = some (lc', r) ∧ Rep lc' ∧ lc'.lcLocked = true ∧
      lc'.nrElements = lc.nrElements ∧
      ∀ j, (lc'.lcElement j).lcNewNumber = (lc.lcElement j).lcNewNumber := by
  cases hstarving : lc.lcStarving with
  | true =>
      refine ⟨{ lc with starving := lc.starving + 1 }, none, ?_,
        h.congr ⟨rfl, fun k => by cases k <;> rfl, rfl, rfl, rfl, rfl, rfl⟩, hlock, rfl, fun _ => rfl⟩
      unfold lcGetCumulative lcGetFlags
      rw [if_neg (Nat.pos_iff_ne_zero.mp h.elements), if_pos hstarving]
  | false =>
      by_cases hfind : lcFindAny lc enr true = none
      · refine ⟨{ lc with misses := lc.misses + 1, lcDirty := true, locked := lc.locked + 1 }, none, ?_,
          h.congr ⟨rfl, fun k => by cases k <;> rfl, rfl, rfl, rfl, rfl, rfl⟩, hlock, rfl, fun _ => rfl⟩
        unfold lcGetCumulative lcGetFlags
        rw [if_neg (Nat.pos_iff_ne_zero.mp h.elements), if_neg (by rw [hstarving]; decide), hfind]
        dsimp only
        rw [if_neg (by decide), if_pos hlock]
      · obtain ⟨lc', r, hget, hchecked⟩ := getCumulative_checked h hreal hstarving (.inl hfind)
        exact ⟨lc', r, hget, hchecked.rep, hchecked.locked.trans hlock, hchecked.nrElements,
          hchecked.known hfind⟩

theorem checkout_locked {xs : List Nat} (h : Rep lc) (hreal : ∀ x ∈ xs, x ≠ LC_FREE) (hlock : lc.lcLocked = true) :
    ∃ lc', checkout lc xs = some lc' ∧ Rep lc' ∧ lc'.nrElements = lc.nrElements ∧
      ∀ j, (lc'.lcElement j).lcNewNumber = (lc.lcElement j).lcNewNumber := by
  induction xs generalizing lc with
  | nil => exact ⟨lc, rfl, h, rfl, fun _ => rfl⟩
  | cons enr rest ih =>
      obtain ⟨lc₁, r, hget, h₁, hlock₁, hn₁, hlabel₁⟩ := getCumulative_locked h (hreal enr List.mem_cons_self) hlock
      obtain ⟨lc', hrest, h', hn', hlabel'⟩ := ih h₁ (fun x hx => hreal x (List.mem_cons_of_mem _ hx)) hlock₁
      refine ⟨lc', ?_, h', hn'.trans hn₁, fun j => (hlabel' j).trans (hlabel₁ j)⟩
      rw [checkout, hget]
      exact hrest

/-! ## The interval -/

section

variable {sector size : Nat}

theorem mem_extents {x : Nat} (hin : sector + size / 512 ≤ 2 ^ 42) (hx : x ∈ Noblock.extents sector size) :
    x ≠ LC_FREE := by
  unfold Noblock.extents at hx
  dsimp only at hx
  rw [List.mem_range'_1] at hx
  have hlast : Noblock.lastSector sector size ≤ 2 ^ 42 := by
    unfold Noblock.lastSector
    split <;> omega
  unfold LC_FREE
  omega

/-- The number of extents is counted without wrapping. -/
theorem nrAlExtents_eq (haligned : size % 512 = 0) (hin : sector + size / 512 ≤ 2 ^ 42) :
    (1 + lastExtent sector size + 2 ^ 32 - firstExtent sector) % 2 ^ 32 = (Noblock.extents sector size).length ∧
      1 ≤ (Noblock.extents sector size).length := by
  unfold Noblock.extents lastExtent firstExtent
  dsimp only
  rw [List.length_range']
  have hlast : sector ≤ Noblock.lastSector sector size ∧ Noblock.lastSector sector size ≤ 2 ^ 42 := by
    unfold Noblock.lastSector
    split <;> omega
  omega

/-- No resync extent forbids writes to an extent of the interval. -/
def Unobstructed (rs : Resync) (xs : List Nat) : Prop :=
  ∀ x ∈ xs, ∀ i ∈ lcFind rs.lc (x / AL_EXT_PER_BM_SECT), rs.noWrites i = false

theorem checkResync_none_iff (rs : Resync) (xs : List Nat) :
    (checkResync rs xs).2 = none ↔ Unobstructed rs xs := by
  induction xs with
  | nil => exact ⟨fun _ x hx => (by cases hx), fun _ => rfl⟩
  | cons enr rest ih =>
      have hsplit : Unobstructed rs (enr :: rest) ↔
          (∀ i ∈ lcFind rs.lc (enr / AL_EXT_PER_BM_SECT), rs.noWrites i = false) ∧ Unobstructed rs rest :=
        List.forall_mem_cons
      rw [hsplit, ← ih, checkResync]
      cases lcFind rs.lc (enr / AL_EXT_PER_BM_SECT) with
      | none => exact ⟨fun h => ⟨fun i hi => (by cases hi), h⟩, fun h => h.2⟩
      | some i =>
          dsimp only
          cases hw : rs.noWrites i with
          | false =>
              rw [if_neg (by decide)]
              refine ⟨fun h => ⟨fun j hj => ?_, h⟩, fun h => h.2⟩
              cases hj
              exact hw
          | true =>
              rw [if_pos rfl]
              constructor
              · intro h
                split at h <;> cases h
              · intro h
                rw [h.1 i rfl] at hw
                cases hw

/-- The call gets as far as the references, the activity log is locked, and an extent is not in it. -/
structure LockedOut (al : LruCache) (rs : Resync) (sector size : Nat) : Prop where
  slots : (Noblock.extents sector size).length ≤ availableUpdateSlots al
  unobstructed : Unobstructed rs (Noblock.extents sector size)
  locked : al.lcLocked = true
  cold : ∃ x ∈ Noblock.extents sector size, lcFindAny al x true = none

theorem Ready.not_starving (h : Ready lc) (hslots : 0 < lc.nrElements - lc.used) : lc.lcStarving = false := by
  cases hstarving : lc.lcStarving with
  | false => rfl
  | true =>
      obtain ⟨hfree, hlru⟩ := h.starves hstarving
      have hle := nrElements_le_used h.rep hfree hlru
      omega

/-- What the call leaves, when it gets as far as the references. -/
theorem Ready.checkout_iff (h : Ready lc) (haligned : size % 512 = 0) (hin : sector + size / 512 ≤ 2 ^ 42)
    (hslots : (Noblock.extents sector size).length ≤ availableUpdateSlots lc) :
    ∃ lc', checkout lc (Noblock.extents sector size) = some lc' ∧
      ((∀ x ∈ Noblock.extents sector size, refcntOf lc' x = refcntOf lc x + 1) ↔
        ¬ (lc.lcLocked = true ∧ ∃ x ∈ Noblock.extents sector size, lcFindAny lc x true = none)) := by
  have hreal : ∀ x ∈ Noblock.extents sector size, x ≠ LC_FREE := fun x => mem_extents hin
  have hone := (nrAlExtents_eq haligned hin).2
  unfold availableUpdateSlots at hslots
  by_cases hout : lc.lcLocked = true ∧ ∃ x ∈ Noblock.extents sector size, lcFindAny lc x true = none
  · obtain ⟨hlock, x, hx, hcold⟩ := hout
    obtain ⟨lc', hcheck, h', hn, hlabel⟩ := checkout_locked h.rep hreal hlock
    refine ⟨lc', hcheck, fun hall => ?_, fun hno => absurd ⟨hlock, x, hx, hcold⟩ hno⟩
    -- the cold extent is still without a label
    have hnone := h.rep.chained.find_none (hreal x hx) hcold
    have hzero : refcntOf lc' x = 0 := by
      refine refcntOf_of_not_mem h' fun j hj => ?_
      rw [hlabel]
      exact hnone j (hn ▸ hj)
    have hraised := hall x hx
    omega
  · have hroom : (∀ x ∈ Noblock.extents sector size, lcFindAny lc x true ≠ none) ∨ lc.lcLocked = false ∧
        (Noblock.extents sector size).length ≤ lc.nrElements - lc.used ∧
        (Noblock.extents sector size).length ≤ lc.maxPendingChanges - lc.pendingChanges := by
      cases hlock : lc.lcLocked with
      | true => exact .inl fun x hx hnone => hout ⟨hlock, x, hx, hnone⟩
      | false => exact .inr ⟨rfl, by omega, by omega⟩
    obtain ⟨lc', hcheck, hrefs⟩ := checkout_checked h.rep (h.not_starving (by omega))
      (Noblock.extents_nodup sector size) hreal hroom
    refine ⟨lc', hcheck, fun _ => hout, fun _ x hx => ?_⟩
    rw [hrefs x (hreal x hx), if_pos hx]

end

/-- In every state that cache operations lead to, the call is all or nothing exactly if it is not locked out. -/
theorem al_begin_io_nonblock_iff {m n : Nat} (hn : 0 < n) {ops : List Op} {t : Timed}
    (hc : Meets step Allowed (create m n) ops) (hrun : run step (create m n) ops = some t)
    (rs : Resync) (sector size : Nat) (haligned : size % 512 = 0) (hin : sector + size / 512 ≤ 2 ^ 42) :
    ∃ al' rs' err, drbdAlBeginIoNonblock t.lc rs sector size = some (al', rs', err) ∧
      (AllOrNothing t.lc (Noblock.extents sector size) (al', err) ↔ ¬ LockedOut t.lc rs sector size) := by
  have hready := ready_of_run hn hc hrun
  have hnr := (nrAlExtents_eq haligned hin).1
  unfold drbdAlBeginIoNonblock
  dsimp only
  rw [hnr]
  by_cases hslots : availableUpdateSlots t.lc < (Noblock.extents sector size).length
  · rw [if_pos hslots]
    exact ⟨_, _, _, rfl, fun _ hout => absurd hout.slots (by omega), fun _ => rfl⟩
  · rw [if_neg hslots]
    have hresync := checkResync_none_iff rs (Noblock.extents sector size)
    generalize checkResync rs (Noblock.extents sector size) = r at hresync ⊢
    obtain ⟨rs', err⟩ := r
    cases err with
    | some err =>
        refine ⟨_, _, _, rfl, fun _ hout => ?_, fun _ => rfl⟩
        cases hresync.2 hout.unobstructed
    | none =>
        obtain ⟨al', hcheck, hiff⟩ := hready.checkout_iff haligned hin (by omega)
        refine ⟨al', rs', none, by dsimp only; rw [hcheck]; rfl, ?_⟩
        show (∀ x ∈ _, _) ↔ _
        rw [hiff]
        refine not_congr ⟨fun h => ⟨by omega, hresync.1 rfl, h.1, h.2⟩, fun h => ⟨h.locked, h.cold⟩⟩

/-- An activity log as `drbd_al_create` makes it, and a resync cache with nothing in it. -/
def noResync : Resync := ⟨lcCreate 61 61, fun _ => false, fun _ => false⟩

theorem al_begin_io_nonblock_iff_cold :
    ∃ t, run step (create 64 1237) [.get 5, .tryLockForTransaction, .committed, .unlock] = some t ∧
      ∃ al' rs' err, drbdAlBeginIoNonblock t.lc noResync 8184 8192 = some (al', rs', err) ∧
        (AllOrNothing t.lc (Noblock.extents 8184 8192) (al', err) ↔ ¬ LockedOut t.lc noResync 8184 8192) := by
  have hsome : (run step (create 64 1237) [.get 5, .tryLockForTransaction, .committed, .unlock]).isSome := by
    decide +kernel
  obtain ⟨t, ht⟩ := Option.isSome_iff_exists.1 hsome
  exact ⟨t, ht, al_begin_io_nonblock_iff (by decide) (by decide +kernel) ht noResync 8184 8192 (by decide)
    (by decide)⟩

/-- Another context writes a transaction; the interval is admitted without a reference. -/
theorem al_begin_io_nonblock_while_locked :
    ∃ t al' rs', run step (create 64 1237) [.get 5, .tryLockForTransaction] = some t ∧
      drbdAlBeginIoNonblock t.lc noResync 0 4096 = some (al', rs', none) ∧
      Noblock.extents 0 4096 = [0] ∧ refcntOf t.lc 0 = 0 ∧ refcntOf al' 0 = 0 := by
  have hobs : ((run step (create 64 1237) [.get 5, .tryLockForTransaction]).bind fun t =>
      (drbdAlBeginIoNonblock t.lc noResync 0 4096).map fun r => (r.2.2, refcntOf t.lc 0, refcntOf r.1 0))
      = some (none, 0, 0) := by decide +kernel
  obtain ⟨t, ht, hcall⟩ := Option.bind_eq_some_iff.1 hobs
  obtain ⟨⟨al', rs', err⟩, hal, heq⟩ := Option.map_eq_some_iff.1 hcall
  simp only [Prod.mk.injEq] at heq
  obtain ⟨rfl, hbefore, hafter⟩ := heq
  exact ⟨t, al', rs', ht, hal, by decide, hbefore, hafter⟩

end Drbd.Admission
