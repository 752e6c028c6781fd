import Drbd.Lru.Lemmas.Labels
import Drbd.Noblock.Defs

/-!
# The extent cache of protocol S

`drbd_noblock_begin_io` commits an element in the lock section that recycles it, and whoever puts the
last reference drops the label. So between two lock sections every label is committed and referenced,
and each operation is described by the extents that it adds or drops.
-/

namespace Drbd.Noblock

open Lru

variable {lc lc' : LruCache} {enr : Nat} {ok : Bool}

/-- Between two lock sections a label is committed, and referenced. -/
structure CacheOk (lc : LruCache) : Prop where
  labelled : Labelled lc
  settled : ∀ i, (lc.lcElement i).lcNumber = (lc.lcElement i).lcNewNumber
  busy : ∀ i, (lc.lcElement i).lcNewNumber ≠ LC_FREE → (lc.lcElement i).refcnt ≠ 0

theorem CacheOk.lcCreate (maxPendingChanges eCount : Nat) : CacheOk (lcCreate maxPendingChanges eCount) where
  labelled := ⟨fun _ _ _ hf => absurd rfl hf, fun _ hf => absurd rfl hf⟩
  settled _ := rfl
  busy _ hf := absurd rfl hf

theorem CacheOk.lcFind_eq (hc : CacheOk lc) (enr : Nat) : lcFind lc enr = lcFindAny lc enr true := by
  simp [lcFind, lcFindAny, hc.settled]

theorem CacheOk.tracks_iff (hc : CacheOk lc) (hf : enr ≠ LC_FREE) :
    Tracks lc enr ↔ lcFind lc enr ≠ none := by
  rw [hc.lcFind_eq]
  constructor
  · rintro ⟨i, hi⟩ hnone
    exact hc.labelled.find_none hf hnone ⟨i, hi⟩
  · intro h
    obtain ⟨i, hi⟩ := Option.ne_none_iff_exists'.1 h
    exact ⟨i, lcFindAny_number hi⟩

theorem CacheOk.same (hc : CacheOk lc) (h : SameLabels lc lc') : CacheOk lc' where
  labelled := hc.labelled.congr (fun i => by rw [h.1]) h.2.1 h.2.2
  settled i := by rw [h.1]; exact hc.settled i
  busy i hf := by rw [h.1] at hf ⊢; exact hc.busy i hf

theorem tracks_of_same {x} (h : SameLabels lc lc') (hx : Tracks lc' x) : Tracks lc x := by
  obtain ⟨i, hi⟩ := hx
  exact ⟨i, by rw [← h.1]; exact hi⟩

/-- A new count for a labelled element, still positive. -/
theorem CacheOk.recount {i n} (hc : CacheOk lc) (hn : n ≠ 0)
    (h : StoresElement lc lc' i { lc.lcElement i with refcnt := n }) : CacheOk lc' := by
  have hnum : ∀ j, (lc'.lcElement j).lcNewNumber = (lc.lcElement j).lcNewNumber := by
    intro j
    rw [h.1]
    by_cases hj : j = i
    · subst hj; simp
    · simp [hj]
  refine ⟨hc.labelled.congr hnum h.2.1 h.2.2, ?_, ?_⟩
  · intro j
    rw [h.1]
    by_cases hj : j = i
    · subst hj; simpa using hc.settled j
    · simpa [hj] using hc.settled j
  · intro j hf
    rw [hnum] at hf
    rw [h.1]
    by_cases hj : j = i
    · subst hj; simpa using hn
    · simpa [hj] using hc.busy j hf

theorem tracks_of_recount {i n x} (h : StoresElement lc lc' i { lc.lcElement i with refcnt := n })
    (hx : Tracks lc' x) : Tracks lc x := by
  obtain ⟨j, hj⟩ := hx
  rw [h.1] at hj
  by_cases hji : j = i
  · subst hji; exact ⟨j, by simpa using hj⟩
  · exact ⟨j, by simpa [hji] using hj⟩

/-- The label of element `i` is dropped. -/
theorem CacheOk.drop {i n} (hc : CacheOk lc) (h : StoresElement lc lc' i ⟨n, LC_FREE, LC_FREE⟩) :
    CacheOk lc' := by
  refine ⟨hc.labelled.drop (k := i) (by simp [h.1]) (fun j hj => by simp [h.1, hj]) h.2.1 h.2.2, ?_, ?_⟩
  · intro j
    rw [h.1]
    by_cases hj : j = i
    · subst hj; simp
    · simpa [hj] using hc.settled j
  · intro j hf
    by_cases hj : j = i
    · subst hj; simp [h.1] at hf
    · simp only [h.1, Function.update_of_ne hj] at hf ⊢
      exact hc.busy j hf

theorem tracks_of_drop {i n x} (h : StoresElement lc lc' i ⟨n, LC_FREE, LC_FREE⟩) (hx : Tracks lc' x)
    (hf : x ≠ LC_FREE) : ∃ j, j ≠ i ∧ (lc.lcElement j).lcNewNumber = x := by
  obtain ⟨j, hj⟩ := hx
  rw [h.1] at hj
  by_cases hji : j = i
  · subst hji; simp only [Function.update_self] at hj; exact absurd hj.symm hf
  · exact ⟨j, hji, by simpa [hji] using hj⟩

/-- Element `i` gets a label that was not there, and the first reference to it. -/
theorem CacheOk.relabel {i} (hc : CacheOk lc) (hnew : ¬ Tracks lc enr)
    (helem : lc'.lcElement = Function.update lc.lcElement i ⟨1, enr, enr⟩)
    (hslot : lc'.lcSlot = (lc.rehash i enr).lcSlot) (hnr : lc'.nrElements = lc.nrElements) :
    CacheOk lc' := by
  refine ⟨hc.labelled.relabel hnew (k := i) (by simp [helem]) (fun j hj => by simp [helem, hj])
    hslot hnr, ?_, ?_⟩
  · intro j
    rw [helem]
    by_cases hj : j = i
    · subst hj; simp
    · simpa [hj] using hc.settled j
  · intro j hf
    rw [helem] at hf ⊢
    by_cases hj : j = i
    · subst hj; simp
    · simp only [Function.update_of_ne hj] at hf ⊢
      exact hc.busy j hf

theorem tracks_of_relabel {i x} (helem : lc'.lcElement = Function.update lc.lcElement i ⟨1, enr, enr⟩)
    (hx : x ≠ enr) (hxt : Tracks lc' x) : Tracks lc x := by
  obtain ⟨j, hj⟩ := hxt
  rw [helem] at hj
  by_cases hji : j = i
  · subst hji; simp only [Function.update_self] at hj; exact absurd hj.symm hx
  · exact ⟨j, by simpa [hji] using hj⟩

/-! ## One extent -/

/-- `begin_io` adds no label but its own. -/
theorem beginExtent_spec (hc : CacheOk lc) (hf : enr ≠ LC_FREE)
    (h : beginExtent lc enr = some (lc', ok)) :
    CacheOk lc' ∧ ∀ x, x ≠ enr → Tracks lc' x → Tracks lc x := by
  unfold beginExtent at h
  split at h
  · cases h
  · rename_i lc₁ hget
    cases h
    obtain ⟨_, hsame⟩ | ⟨i, hr, _⟩ | ⟨i, hr, _⟩ := lcGet_cases hget
    · exact ⟨hc.same hsame, fun x _ hx => tracks_of_same hsame hx⟩
    · cases hr
    · cases hr
  · rename_i lc₁ i hget
    dsimp only at h
    obtain ⟨hr, _⟩ | ⟨j, hr, hfind, hcommitted, hstore⟩ | ⟨j, hr, hmiss, hrec⟩ := lcGet_cases hget
    · cases hr
    · -- a hit: the label is the extent's own, only the count goes up
      cases hr
      have hnum : (lc₁.lcElement i).lcNumber = enr := by
        rw [hstore.1]; simp [← hcommitted, lcFindAny_number hfind]
      rw [if_neg (not_ne_iff.2 hnum)] at h
      cases h
      exact ⟨hc.recount (Nat.succ_ne_zero _) hstore, fun x _ hx => tracks_of_recount hstore hx⟩
    · cases hr
      have hnew : ¬ Tracks lc enr := hc.labelled.find_none hf hmiss
      have hold : (lc.lcElement i).lcNumber ≠ enr := fun h' =>
        hnew ⟨i, by rw [← hc.settled]; exact h'⟩
      have hnum : (lc₁.lcElement i).lcNumber ≠ enr := by rw [hrec.1]; simpa using hold
      rw [if_pos hnum] at h
      cases h
      have helem : (lc₁.setElement i { lc₁.lcElement i with
          lcNumber := (lc₁.lcElement i).lcNewNumber }).lcElement
          = Function.update lc.lcElement i ⟨1, enr, enr⟩ := by
        simp [LruCache.setElement, hrec.1]
      exact ⟨hc.relabel hnew helem hrec.2.1 hrec.2.2, fun x hx hxt => tracks_of_relabel helem hx hxt⟩

/-- `compleate_io` adds no label, and answers whether the extent had one; a cleaning one drops it. -/
theorem compleateExtent_spec {clean : Bool} (hc : CacheOk lc) (hf : enr ≠ LC_FREE)
    (h : compleateExtent clean lc enr = some (lc', ok)) :
    CacheOk lc' ∧ (∀ x, x ≠ LC_FREE → Tracks lc' x → Tracks lc x) ∧ (ok = true → Tracks lc enr) ∧
      (clean = true → ¬ Tracks lc' enr) := by
  unfold compleateExtent at h
  split at h
  · rename_i hnone
    cases h
    exact ⟨hc, fun x _ hx => hx, fun hok => (by cases hok),
      fun _ ht => (hc.tracks_iff hf).1 ht hnone⟩
  · rename_i i hfind
    have hnum : (lc.lcElement i).lcNewNumber = enr := lcFindAny_number (by rwa [← hc.lcFind_eq])
    have htrack : Tracks lc enr := ⟨i, hnum⟩
    dsimp only at h
    split at h
    · rename_i hzero
      exact absurd hzero (hc.busy i (by rw [hnum]; exact hf))
    split at h
    · split at h
      · cases h
      · rename_i lc₁ cnt hput
        obtain ⟨_, _, hstore⟩ := lcPut_cases hput
        cases h
        have hdrop : StoresElement lc ({ lc₁.setElement i { lc₁.lcElement i with
            lcNumber := LC_FREE, lcNewNumber := LC_FREE } with starving := lc₁.starving + 1 }) i
            ⟨0, LC_FREE, LC_FREE⟩ := by
          refine ⟨?_, hstore.2.1, hstore.2.2⟩
          simp [LruCache.setElement, hstore.1]
        refine ⟨hc.drop hdrop, ?_, fun _ => htrack, fun _ ht => ?_⟩
        · intro x hx hxt
          obtain ⟨j, _, hj⟩ := tracks_of_drop hdrop hxt hx
          exact ⟨j, hj⟩
        · -- a second element with this label would contradict uniqueness
          obtain ⟨j, hji, hj⟩ := tracks_of_drop hdrop ht hf
          exact hji (hc.labelled.uniq j i (by rw [hj, hnum]) (by rw [hj]; exact hf))
    · rename_i hclean
      split at h
      · cases h
      · rename_i lc₁ cnt hput
        obtain ⟨_, hcnt, hstore⟩ := lcPut_cases hput
        split at h
        · rename_i hzero
          cases h
          have hdrop : StoresElement lc (lc₁.setElement i { lc₁.lcElement i with
              lcNumber := LC_FREE, lcNewNumber := LC_FREE }) i ⟨0, LC_FREE, LC_FREE⟩ := by
            refine ⟨?_, hstore.2.1, hstore.2.2⟩
            simp [LruCache.setElement, hstore.1, ← hcnt, hzero]
          refine ⟨hc.drop hdrop, ?_, fun _ => htrack, fun hcl => absurd hcl hclean⟩
          intro x hx hxt
          obtain ⟨j, _, hj⟩ := tracks_of_drop hdrop hxt hx
          exact ⟨j, hj⟩
        · rename_i hpos
          cases h
          exact ⟨hc.recount (by rw [← hcnt]; exact hpos) hstore,
            fun x _ hx => tracks_of_recount hstore hx, fun _ => htrack, fun hcl => absurd hcl hclean⟩

/-! ## All extents of a request -/

theorem extents_nodup (sector size : Nat) : (extents sector size).Nodup :=
  List.nodup_range'

theorem forExtents_cons {f : LruCache → Nat → Option (LruCache × Bool)} {rest}
    (h : forExtents f lc (enr :: rest) = some (lc', ok)) :
    ∃ lc₁ ok₁ oks, f lc enr = some (lc₁, ok₁) ∧ forExtents f lc₁ rest = some (lc', oks) ∧
      ok = (ok₁ && oks) := by
  unfold forExtents at h
  split at h
  · cases h
  · rename_i lc₁ ok₁ hf
    split at h
    · cases h
    · rename_i lc₂ oks hrest
      cases h
      exact ⟨lc₁, ok₁, oks, hf, hrest, rfl⟩

theorem beginIo_spec {xs} (hc : CacheOk lc) (hf : ∀ x ∈ xs, x ≠ LC_FREE)
    (h : forExtents beginExtent lc xs = some (lc', ok)) :
    CacheOk lc' ∧ ∀ x, x ∉ xs → Tracks lc' x → Tracks lc x := by
  induction xs generalizing lc ok with
  | nil =>
      cases h
      exact ⟨hc, fun x _ hx => hx⟩
  | cons enr rest ih =>
      obtain ⟨lc₁, ok₁, oks, h₁, hrest, _⟩ := forExtents_cons h
      obtain ⟨hc₁, ht₁⟩ := beginExtent_spec hc (hf enr List.mem_cons_self) h₁
      obtain ⟨hc', ht'⟩ := ih hc₁ (fun x hx => hf x (List.mem_cons_of_mem _ hx)) hrest
      refine ⟨hc', fun x hx hxt => ?_⟩
      rw [List.mem_cons, not_or] at hx
      exact ht₁ x hx.1 (ht' x hx.2 hxt)

theorem compleateIo_spec {clean : Bool} {xs} (hc : CacheOk lc) (hf : ∀ x ∈ xs, x ≠ LC_FREE)
    (h : forExtents (compleateExtent clean) lc xs = some (lc', ok)) :
    CacheOk lc' ∧ (∀ x, x ≠ LC_FREE → Tracks lc' x → Tracks lc x) ∧
      (ok = true → ∀ x ∈ xs, Tracks lc x) ∧ (clean = true → ∀ x ∈ xs, ¬ Tracks lc' x) := by
  induction xs generalizing lc ok with
  | nil =>
      cases h
      exact ⟨hc, fun _ _ hx => hx, fun _ _ hx => absurd hx List.not_mem_nil,
        fun _ _ hx => absurd hx List.not_mem_nil⟩
  | cons enr rest ih =>
      obtain ⟨lc₁, ok₁, oks, h₁, hrest, hok⟩ := forExtents_cons h
      have hfe := hf enr List.mem_cons_self
      obtain ⟨hc₁, ht₁, ho₁, hd₁⟩ := compleateExtent_spec hc hfe h₁
      obtain ⟨hc', ht', ho', hd'⟩ := ih hc₁ (fun x hx => hf x (List.mem_cons_of_mem _ hx)) hrest
      refine ⟨hc', fun x hx hxt => ht₁ x hx (ht' x hx hxt), fun hall x hx => ?_, fun hcl x hx => ?_⟩
      · simp only [hok, Bool.and_eq_true] at hall
        rcases List.mem_cons.1 hx with rfl | hx'
        · exact ho₁ hall.1
        · exact ht₁ x (hf x hx) (ho' hall.2 x hx')
      · rcases List.mem_cons.1 hx with rfl | hx'
        · exact fun hxt => hd₁ hcl (ht' x hfe hxt)
        · exact hd' hcl x hx'

end Drbd.Noblock
