import Drbd.Lib.System
import Drbd.Lru.Lemmas.Steps

/-!
# The representation invariant of the cache
-/

namespace Drbd.Lru

open Lib

variable {t t' : Timed} {op : Op} {ops : List Op} {lc lc' : LruCache}

/-- What callers of the cache rely on. -/
structure Sound (lc : LruCache) : Prop where
  oneList : ∀ i < lc.nrElements, ∃! h, i ∈ lc.listOf h
  onlyElements : ∀ h, (lc.listOf h).Nodup ∧ ∀ i ∈ lc.listOf h, i < lc.nrElements
  free : ∀ i ∈ lc.free, (lc.lcElement i).refcnt = 0 ∧ (lc.lcElement i).lcNumber = LC_FREE ∧
    (lc.lcElement i).lcNewNumber = LC_FREE ∧ ∀ s, i ∉ lc.lcSlot s
  lru : ∀ i ∈ lc.lru, (lc.lcElement i).refcnt = 0 ∧ (lc.lcElement i).lcNumber ≠ LC_FREE ∧
    (lc.lcElement i).lcNumber = (lc.lcElement i).lcNewNumber
  inUse : ∀ i ∈ lc.inUse, 0 < (lc.lcElement i).refcnt ∧
    (lc.lcElement i).lcNumber = (lc.lcElement i).lcNewNumber
  toBeChanged : ∀ i ∈ lc.toBeChanged, 0 < (lc.lcElement i).refcnt
  hashed : ∀ s i, i ∈ lc.lcSlot s ↔ i < lc.nrElements ∧ (lc.lcElement i).lcNewNumber ≠ LC_FREE ∧
    s = (lc.lcElement i).lcNewNumber % lc.nrElements
  labels : ∀ i < lc.nrElements, ∀ j < lc.nrElements,
    (lc.lcElement i).lcNewNumber = (lc.lcElement j).lcNewNumber →
    (lc.lcElement i).lcNewNumber ≠ LC_FREE → i = j
  used : lc.used = lc.inUse.length + lc.toBeChanged.length
  pending : lc.pendingChanges = lc.toBeChanged.length
  pendingLe : lc.pendingChanges ≤ lc.maxPendingChanges

/-- An element that is taken from the lru list for a new label was released before all others there, and
there is no free one. -/
def EvictsOldest (t : Timed) : Prop :=
  ∀ enr mayUse i lc', enr ≠ LC_FREE → lcGetFlags t.lc enr true mayUse = some (lc', some i) →
    (t.lc.lcElement i).lcNewNumber ≠ enr → i ∈ t.lc.lru →
    t.lc.free = [] ∧ ∀ j ∈ t.lc.lru, j ≠ i → t.released i < t.released j

structure Inv (t : Timed) : Prop where
  rep : Rep t.lc
  order : t.lc.lru.Pairwise fun a b => t.released b < t.released a
  past : ∀ i, t.released i ≤ t.clock

theorem Rep.sound (h : Rep lc) : Sound lc where
  oneList i hi := by
    refine ⟨(lc.lcElement i).home, (h.filed.mem _ i).mpr ⟨hi, rfl⟩, fun k hk => ?_⟩
    exact ((h.filed.mem k i).mp hk).2.symm
  onlyElements k := ⟨h.filed.nodup k, fun i hi => ((h.filed.mem k i).mp hi).1⟩
  free i hi := by
    obtain ⟨hlt, hh⟩ := (h.filed.mem .free i).mp hi
    obtain ⟨-, h0, ho, hw⟩ | ⟨hne, -⟩ | ⟨hne, -⟩ | ⟨hne, -⟩ := LcElement.home_cases (h.filed.plain i hlt)
    · exact ⟨h0, ho, hw, fun s hs => ((h.chained.mem s i).mp hs).2.1 hw⟩
    all_goals cases hh.symm.trans hne
  lru i hi := by
    obtain ⟨hlt, hh⟩ := (h.filed.mem .lru i).mp hi
    obtain ⟨hne, -⟩ | ⟨-, h0, ho, hw⟩ | ⟨hne, -⟩ | ⟨hne, -⟩ := LcElement.home_cases (h.filed.plain i hlt)
    · cases hh.symm.trans hne
    · exact ⟨h0, ho ▸ hw, ho⟩
    all_goals cases hh.symm.trans hne
  inUse i hi := by
    obtain ⟨hlt, hh⟩ := (h.filed.mem .inUse i).mp hi
    obtain ⟨hne, -⟩ | ⟨hne, -⟩ | ⟨-, h0, ho, -⟩ | ⟨hne, -⟩ := LcElement.home_cases (h.filed.plain i hlt)
    · cases hh.symm.trans hne
    · cases hh.symm.trans hne
    · exact ⟨Nat.pos_of_ne_zero h0, ho⟩
    · cases hh.symm.trans hne
  toBeChanged i hi := by
    obtain ⟨hlt, hh⟩ := (h.filed.mem .toBeChanged i).mp hi
    obtain ⟨hne, -⟩ | ⟨hne, -⟩ | ⟨hne, -⟩ | ⟨-, h0, -⟩ := LcElement.home_cases (h.filed.plain i hlt)
    · cases hh.symm.trans hne
    · cases hh.symm.trans hne
    · cases hh.symm.trans hne
    · exact Nat.pos_of_ne_zero h0
  hashed := h.chained.mem
  labels := h.chained.uniq
  used := h.counted.used
  pending := h.counted.pending
  pendingLe := h.counted.bound

theorem rep_create {m n : Nat} (hn : 0 < n) : Rep (lcCreate m n) :=
  rep_fresh hn rfl ⟨rfl, rfl, rfl⟩ (fun _ => rfl) (fun _ _ => rfl) ⟨rfl, rfl⟩

theorem Rep.reset (h : Rep lc) : Rep (lcReset lc) := by
  refine rep_fresh h.elements rfl ⟨rfl, rfl, rfl⟩ (fun s => ?_) (fun i hi => if_pos hi) ⟨rfl, rfl⟩
  show (if s < lc.nrElements then [] else lc.lcSlot s) = []
  split
  · rfl
  · rename_i hs
    refine List.eq_nil_iff_forall_not_mem.mpr fun i hi => hs ?_
    rw [((h.chained.mem s i).mp hi).2.2]
    exact Nat.mod_lt _ h.elements

/-- An allowed operation does not fire a `BUG_ON` and keeps the representation; the lru list shrinks, or
the released element becomes its head. -/
theorem Rep.apply (h : Rep t.lc) (ha : Allowed t op) :
    ∃ lc' r, apply t.lc op = some (lc', r) ∧ Rep lc' ∧
      (match r with
        | none => lc'.lru.Sublist t.lc.lru
        | some i => lc'.lru = i :: t.lc.lru.erase i) := by
  have hget (enr : Nat) (a b : Bool) (hreal : enr ≠ LC_FREE) :
      ∃ lc' r, lcGetFlags t.lc enr a b = some (lc', r) ∧ Rep lc' ∧ lc'.lru.Sublist t.lc.lru := by
    obtain ⟨lc', r, hg, hr, hcase⟩ := @Rep.getFlags_cases t.lc enr h a b
    refine ⟨lc', r, hg, hr hreal, ?_⟩
    rcases hcase with ⟨-, hl⟩ | ⟨i, -, -, -, hl⟩ | ⟨i, -, -, hl, -⟩
    · rw [hl]
    · exact hl
    · rw [hl]
      exact List.erase_sublist
  have hsame {lc' : LruCache} (hs : SameRep t.lc lc') : Rep lc' ∧ lc'.lru.Sublist t.lc.lru :=
    ⟨h.congr hs, by rw [show lc'.lru = t.lc.lru from hs.lists .lru]⟩
  cases op with
  | get enr =>
      obtain ⟨lc', r, hg, hr, hl⟩ := hget enr true false ha
      exact ⟨lc', none, by simp [Lru.apply, lcGet, hg], hr, hl⟩
  | getCumulative enr =>
      obtain ⟨lc', r, hg, hr, hl⟩ := hget enr true true ha
      exact ⟨lc', none, by simp [Lru.apply, lcGetCumulative, hg], hr, hl⟩
  | tryGet enr =>
      obtain ⟨lc', r, hg, hr, hl⟩ := hget enr false false ha
      exact ⟨lc', none, by simp [Lru.apply, lcTryGet, hg], hr, hl⟩
  | put i =>
      obtain ⟨lc', cnt, hp, hr, hl⟩ := h.put ha.1 ha.2.1 ha.2.2
      refine ⟨lc', if cnt = 0 then some i else none, by simp [Lru.apply, hp], hr, ?_⟩
      by_cases hz : cnt = 0
      · rw [if_pos hz] at hl ⊢
        exact hl
      · rw [if_neg hz] at hl ⊢
        rw [hl]
  | committed =>
      obtain ⟨lc', hc, hr, hl⟩ := h.committed
      exact ⟨lc', none, by simp [Lru.apply, hc], hr, hl⟩
  | del i =>
      obtain ⟨lc', hd, hr, hl⟩ := h.del ha.1 ha.2
      exact ⟨lc', none, by simp [Lru.apply, hd], hr, hl⟩
  | set enr index =>
      by_cases hin : 0 ≤ index ∧ index < t.lc.nrElements
      · obtain ⟨h0, hnum, hnew⟩ := ha hin.1 hin.2
        obtain ⟨lc', hs, hr, hl⟩ := h.set hin.1 hin.2 h0 hnum hnew
        by_cases hf : enr = LC_FREE
        · subst hf
          rw [if_pos rfl] at hl
          refine ⟨lc', none, by simp [Lru.apply, hs], hr, ?_⟩
          rw [hl]
          exact List.erase_sublist
        · rw [if_neg hf] at hl
          exact ⟨lc', some index.toNat, by simp [Lru.apply, hs, hf, hin], hr, hl⟩
      · refine ⟨t.lc, none, ?_, h, List.Sublist.refl _⟩
        have hignored : lcSet t.lc enr index = some t.lc := if_pos (by omega)
        have hno : ¬ (0 ≤ index ∧ index < t.lc.nrElements ∧ enr ≠ LC_FREE) := fun hc => hin ⟨hc.1, hc.2.1⟩
        simp only [Lru.apply, hignored, Option.map_some, if_neg hno]
  | reset => exact ⟨_, _, rfl, h.reset, List.nil_sublist _⟩
  | tryLock =>
      refine ⟨_, _, rfl, hsame ?_⟩
      unfold lcTryLock
      split
      · exact ⟨rfl, fun _ => rfl, rfl, rfl, rfl, rfl, rfl⟩
      · exact ⟨rfl, fun k => by cases k <;> rfl, rfl, rfl, rfl, rfl, rfl⟩
  | tryLockForTransaction =>
      exact ⟨_, _, rfl, hsame ⟨rfl, fun k => by cases k <;> rfl, rfl, rfl, rfl, rfl, rfl⟩⟩
  | unlock => exact ⟨_, _, rfl, hsame ⟨rfl, fun k => by cases k <;> rfl, rfl, rfl, rfl, rfl, rfl⟩⟩

theorem Inv.step_some (h : Inv t) (ha : Allowed t op) : ∃ t', step t op = some t' ∧ Inv t' := by
  obtain ⟨lc', r, happ, hrep, hlru⟩ := h.rep.apply ha
  unfold step
  rw [happ, Option.map_some]
  refine ⟨_, rfl, hrep, ?_, ?_⟩
  · cases r with
    | none => exact h.order.sublist hlru
    | some i =>
        dsimp only at hlru ⊢
        have hnot : i ∉ t.lc.lru.erase i := (h.rep.filed.nodup .lru).not_mem_erase
        rw [hlru, List.pairwise_cons]
        constructor
        · intro j hj
          have hne : j ≠ i := fun he => hnot (he ▸ hj)
          rw [Function.update_self, Function.update_of_ne hne]
          exact Nat.lt_succ_of_le (h.past j)
        · refine (h.order.sublist List.erase_sublist).imp_of_mem fun {a b} ha hb hab => ?_
          have hne {k : Nat} (hk : k ∈ t.lc.lru.erase i) : k ≠ i := fun he => hnot (he ▸ hk)
          rw [Function.update_of_ne (hne ha), Function.update_of_ne (hne hb)]
          exact hab
  · intro j
    cases r with
    | none => exact Nat.le_succ_of_le (h.past j)
    | some i =>
        dsimp only
        by_cases hj : j = i
        · rw [hj]
          exact Nat.le_of_eq (Function.update_self ..)
        · rw [Function.update_of_ne hj]
          exact Nat.le_succ_of_le (h.past j)

theorem Inv.step (h : Inv t) (ha : Allowed t op) (hs : step t op = some t') : Inv t' := by
  obtain ⟨u, hu, hinv⟩ := h.step_some ha
  rw [hs, Option.some.injEq] at hu
  exact hu ▸ hinv

/-- The last element of the lru list was released first. -/
theorem Inv.evictsOldest (h : Inv t) : EvictsOldest t := by
  intro enr mayUse i lc' hreal hg hnum hi
  obtain ⟨lc'', r, hg', -, hcase⟩ := @Rep.getFlags_cases t.lc enr h.rep true mayUse
  rw [hg, Option.some.injEq, Prod.mk.injEq] at hg'
  obtain ⟨rfl, rfl⟩ := hg'
  rcases hcase with ⟨hnone, -⟩ | ⟨k, hk, -, hk', -⟩ | ⟨k, hk, hu, -, -⟩
  · cases hnone
  · cases hk
    exact absurd hk' hnum
  · cases hk
    unfold lcUnusedElement at hu
    split at hu
    · rename_i k l hfree
      cases hu
      -- a free element is not on the lru list
      have hmem : i ∈ t.lc.listOf .free := by
        unfold LruCache.listOf
        rw [hfree]
        exact List.mem_cons_self
      have hhome := ((h.rep.filed.mem .free i).mp hmem).2
      have hhome' := ((h.rep.filed.mem .lru i).mp hi).2
      cases hhome.symm.trans hhome'
    · rename_i hfree
      refine ⟨hfree, fun j hj hne => ?_⟩
      obtain ⟨l, hl⟩ := List.getLast?_eq_some_iff.mp hu
      have horder := h.order
      rw [hl] at horder hj
      have hjl : j ∈ l := (List.mem_append.mp hj).resolve_right fun hm => hne (List.mem_singleton.mp hm)
      exact (List.pairwise_append.mp horder).2.2 j hjl i (List.mem_singleton.mpr rfl)

/-- After any allowed operations the cache is as its callers rely on, no allowed operation fires a
`BUG_ON`, and the next element to be evicted is the one released first. -/
theorem lru_cache_sound {m n : Nat} (hn : 0 < n) (hc : Meets step Allowed (create m n) ops)
    (h : run step (create m n) ops = some t) :
    Sound t.lc ∧ EvictsOldest t ∧ ∀ op, Allowed t op → (step t op).isSome := by
  have h0 : Inv (create m n) := ⟨rep_create hn, List.Pairwise.nil, fun _ => Nat.le_refl 0⟩
  have hinv : Inv t := run_invariant (fun hi ha hs => Inv.step hi ha hs) h0 hc h
  refine ⟨hinv.rep.sound, hinv.evictsOldest, fun op ha => ?_⟩
  obtain ⟨t', ht', -⟩ := hinv.step_some ha
  rw [ht']
  rfl

instance : ∀ t op, Decidable (Allowed t op)
  | _, .get _ => inferInstanceAs (Decidable (_ ≠ _))
  | _, .getCumulative _ => inferInstanceAs (Decidable (_ ≠ _))
  | _, .tryGet _ => inferInstanceAs (Decidable (_ ≠ _))
  | _, .put _ => inferInstanceAs (Decidable (_ ∧ _))
  | _, .del _ => inferInstanceAs (Decidable (_ ∧ _))
  | _, .set _ _ => inferInstanceAs (Decidable (_ → _))
  | _, .committed => inferInstanceAs (Decidable True)
  | _, .reset => inferInstanceAs (Decidable True)
  | _, .tryLock => inferInstanceAs (Decidable True)
  | _, .tryLockForTransaction => inferInstanceAs (Decidable True)
  | _, .unlock => inferInstanceAs (Decidable True)

/-- Two labels come in, are committed and released; the one released first makes room for a third. -/
theorem lru_cache_sound_evict :
    ∃ t, run step (create 4 2) [.get 5, .get 6, .committed, .put 1, .put 0] = some t ∧
      (lcGet t.lc 7).map (·.2) = some (some 1) ∧ t.lc.lru = [0, 1] ∧ Sound t.lc ∧ EvictsOldest t := by
  have hobs : (run step (create 4 2) [.get 5, .get 6, .committed, .put 1, .put 0]).map
      (fun t => ((lcGet t.lc 7).map (·.2), t.lc.lru)) = some (some (some 1), [0, 1]) := by decide
  obtain ⟨t, ht, hl⟩ := Option.map_eq_some_iff.mp hobs
  rw [Prod.mk.injEq] at hl
  have hsound := lru_cache_sound (by decide : 0 < 2) (by decide) ht
  exact ⟨t, ht, hl.1, hl.2, hsound.1, hsound.2.1⟩

end Drbd.Lru
