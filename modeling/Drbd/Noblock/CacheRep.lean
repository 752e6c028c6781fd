import Drbd.Lru.Theorems
import Drbd.Noblock.Lemmas.Cache

/-!
# The extent cache as an LRU cache

`drbd_noblock_compleate_io` takes the label off an element it has put on the lru list, where
`lru_cache.h` wants labelled elements only, and leaves it on its hash chain. As long as no completion
takes the last reference of an extent, the cache is what `lru_cache.c` relies on.
-/

namespace Drbd.Noblock

open Lib Lru

variable {lc lc' : LruCache} {enr i : Nat}

inductive CacheOp
  | begin (sector size : Nat)
  | compleate (sector size : Nat) (clean : Bool)
deriving DecidableEq

def cacheStep (lc : LruCache) : CacheOp → Option LruCache
  | .begin sector size => (drbdNoblockBeginIo lc sector size).map (·.1)
  | .compleate sector size clean => (drbdNoblockCompleateIo lc sector size clean).map (·.1)

/-- The completion does not take the last reference: the extent is unknown or unused, or it is not cleaned
and there is another reference. -/
def KeepsOne (lc : LruCache) (clean : Bool) (enr : Nat) : Prop :=
  ∀ i ∈ lcFind lc enr, (lc.lcElement i).refcnt = 0 ∨ clean = false ∧ 2 ≤ (lc.lcElement i).refcnt

/-- The elements do not run out after the first extent: there are enough of them for the extents that are
new, or there is none for the first one already. -/
def NotMidway (lc : LruCache) (xs : List Nat) : Prop :=
  lc.lcStarving = true ∨ (xs.countP fun x => (lcFind lc x).isNone) ≤ lc.free.length ∨
    lc.free = [] ∧ ∀ x ∈ xs.head?, lcFind lc x = none

/-- The labels are those of extents. -/
def RealExtents (sector size : Nat) : Prop :=
  ∀ x ∈ extents sector size, x ≠ LC_FREE

def CacheCond (lc : LruCache) : CacheOp → Prop
  | .begin sector size => RealExtents sector size ∧ NotMidway lc (extents sector size)
  | .compleate sector size clean =>
      RealExtents sector size ∧ ∀ x ∈ extents sector size, KeepsOne lc clean x

instance (lc : LruCache) (clean : Bool) (enr : Nat) : Decidable (KeepsOne lc clean enr) :=
  inferInstanceAs (Decidable (∀ i ∈ lcFind lc enr, _))

instance (lc : LruCache) (xs : List Nat) : Decidable (NotMidway lc xs) :=
  inferInstanceAs (Decidable (_ ∨ _ ∨ _ ∧ ∀ x ∈ xs.head?, _))

instance (sector size : Nat) : Decidable (RealExtents sector size) :=
  inferInstanceAs (Decidable (∀ x ∈ extents sector size, _))

instance (lc : LruCache) : (op : CacheOp) → Decidable (CacheCond lc op)
  | .begin _ _ => inferInstanceAs (Decidable (_ ∧ _))
  | .compleate sector size _ => inferInstanceAs (Decidable (_ ∧ ∀ x ∈ extents sector size, _))

/-- Between two calls: nothing is pending, and nothing was ever released. -/
structure Held (lc : LruCache) : Prop where
  rep : Rep lc
  noLru : lc.lru = []
  settled : lc.toBeChanged = []
  unlocked : lc.lcLocked = false
  room : 0 < lc.maxPendingChanges

theorem Held.lcCreate {m n : Nat} (hm : 0 < m) (hn : 0 < n) : Held (lcCreate m n) :=
  ⟨rep_create hn, rfl, rfl, rfl, hm⟩

theorem Held.committed (h : Held lc) (hi : i < lc.nrElements) :
    (lc.lcElement i).lcNewNumber = (lc.lcElement i).lcNumber := by
  obtain ⟨-, -, ho, hw⟩ | ⟨-, -, ho, -⟩ | ⟨-, -, ho, -⟩ | ⟨hh, -⟩ :=
    LcElement.home_cases (h.rep.filed.plain i hi)
  · rw [ho, hw]
  · exact ho.symm
  · exact ho.symm
  · have hmem : i ∈ lc.listOf .toBeChanged := (h.rep.filed.mem .toBeChanged i).mpr ⟨hi, hh⟩
    rw [LruCache.listOf, h.settled] at hmem
    cases hmem

theorem Held.lcFind_eq (h : Held lc) (enr : Nat) : lcFind lc enr = lcFindAny lc enr true := by
  unfold lcFind lcFindAny
  split
  · rfl
  · rename_i j hj
    have hmem := ((h.rep.chained.mem _ _).mp (List.mem_of_find?_eq_some hj)).1
    rw [if_pos (.inl (h.committed hmem)), if_pos (.inr rfl)]

theorem Held.lcFind_none_iff (h : Held lc) (hreal : enr ≠ LC_FREE) :
    lcFind lc enr = none ↔ ∀ j < lc.nrElements, (lc.lcElement j).lcNewNumber ≠ enr := by
  constructor
  · intro hnone
    rw [h.lcFind_eq] at hnone
    exact h.rep.chained.find_none hreal hnone
  · intro hall
    cases hfind : lcFind lc enr with
    | none => rfl
    | some i =>
        obtain ⟨hi, hnum⟩ := h.rep.chained.find_some hfind
        exact absurd hnum (hall i hi)

/-! ## Beginning -/

/-- What one round of `drbd_noblock_begin_io` does to references and room. -/
inductive Begun (lc lc' : LruCache) (enr : Nat) : Bool → Prop
  | refused : lc'.lcElement = lc.lcElement → lc'.lcStarving = true →
      lc.lcStarving = true ∨ lc.free = [] ∧ lcFind lc enr = none → Begun lc lc' enr false
  | taken : lc.lcStarving = false → lc'.lcStarving = false →
    lc'.free.length + (if (lcFind lc enr).isNone then 1 else 0) = lc.free.length →
      (∀ x, x ≠ LC_FREE → (lcFind lc' x).isNone = true → (lcFind lc x).isNone = true) →
      Begun lc lc' enr true

/-- The element that was to be changed is committed at once. -/
theorem Rep.commitOne (h : Rep lc) (hi : i < lc.nrElements) (hh : (lc.lcElement i).home = .toBeChanged) :
    Rep { (lc.setElement i { lc.lcElement i with lcNumber := (lc.lcElement i).lcNewNumber }).moveInUse i with
      pendingChanges := lc.pendingChanges - 1 } := by
  have hstart : Committing lc := ⟨h.elements, h.filed, h.chained, h.counted.used⟩
  obtain ⟨hend, hlen, _, _⟩ := hstart.step hi hh
  have hpend := h.counted.pending
  have hbound := h.counted.bound
  refine ⟨hend.elements, hend.filed.congr rfl rfl fun k => by cases k <;> rfl,
    hend.chained.congr rfl rfl fun _ => rfl, hend.used, ?_, ?_⟩
  · show lc.pendingChanges - 1 = (commitElement lc i).toBeChanged.length
    omega
  · show lc.pendingChanges - 1 ≤ lc.maxPendingChanges
    omega

theorem Held.congr (h : Held lc) (hs : SameRep lc lc') (hlock : lc'.lcLocked = lc.lcLocked) : Held lc' :=
  ⟨h.rep.congr hs, (hs.lists .lru).trans h.noLru, (hs.lists .toBeChanged).trans h.settled,
    hlock.trans h.unlocked, by rw [hs.max]; exact h.room⟩

theorem Held.begin_starving (h : Held lc) (hstarving : lc.lcStarving = true) :
    ∃ lc', beginExtent lc enr = some (lc', false) ∧ Held lc' ∧ Begun lc lc' enr false := by
  refine ⟨{ lc with starving := lc.starving + 1 }, ?_, h.congr ⟨rfl, fun k => by cases k <;> rfl, rfl, rfl, rfl,
    rfl, rfl⟩ rfl, .refused rfl hstarving (.inl hstarving)⟩
  unfold beginExtent lcGet lcGetFlags
  rw [if_neg (Nat.pos_iff_ne_zero.mp h.rep.elements), if_pos hstarving]

/-- The label is there: one reference more. -/
theorem Held.begin_hit (h : Held lc) (hreal : enr ≠ LC_FREE) (hstarving : lc.lcStarving = false)
    (hfind : lcFind lc enr = some i) :
    ∃ lc', beginExtent lc enr = some (lc', true) ∧ Held lc' ∧ Begun lc lc' enr true := by
  rw [h.lcFind_eq] at hfind
  obtain ⟨hi, hnum⟩ := h.rep.chained.find_some hfind
  have hcommitted := h.committed hi
  obtain ⟨lc₁, hlc₁⟩ : ∃ lc₁ : LruCache, lc₁ = (({ lc with
      hits := lc.hits + 1
      used := if (lc.lcElement i).refcnt = 0 then lc.used + 1 else lc.used }).setElement i
        { lc.lcElement i with refcnt := (lc.lcElement i).refcnt + 1 }).moveInUse i := ⟨_, rfl⟩
  have helem : lc₁.lcElement = Function.update lc.lcElement i
      { lc.lcElement i with refcnt := (lc.lcElement i).refcnt + 1 } := by
    rw [hlc₁]
    rfl
  have hrep : Rep lc₁ := by
    refine h.rep.hit hi (hnum ▸ hreal) hcommitted (by rw [hlc₁]; rfl) (fun k => ?_) (by rw [hlc₁]; rfl) helem
      (by rw [hlc₁]; rfl) (by rw [hlc₁]; rfl) (by rw [hlc₁]; rfl)
    rw [hlc₁]
    cases k <;> rfl
  have hheld : Held lc₁ := by
    refine ⟨hrep, ?_, ?_, by rw [hlc₁]; exact h.unlocked, by rw [hlc₁]; exact h.room⟩
    · rw [hlc₁]
      show lc.lru.erase i = []
      rw [h.noLru]
      rfl
    · rw [hlc₁]
      show lc.toBeChanged.erase i = []
      rw [h.settled]
      rfl
  have hfree : lc₁.free = lc.free := by
    have hhome : (lc.lcElement i).home ≠ .free := by
      intro hh
      unfold LcElement.home at hh
      rw [if_neg (hnum ▸ hreal)] at hh
      split at hh
      · cases hh
      · split at hh <;> cases hh
    rw [hlc₁]
    exact h.rep.filed.erase_of_ne hhome
  refine ⟨lc₁, ?_, hheld, .taken hstarving (by rw [hlc₁]; exact hstarving) ?_ fun x hx hnone => ?_⟩
  · unfold beginExtent lcGet lcGetFlags
    rw [if_neg (Nat.pos_iff_ne_zero.mp h.rep.elements), if_neg (by rw [hstarving]; decide), hfind]
    dsimp only
    rw [if_neg (not_ne_iff.mpr hcommitted), ← hlc₁]
    dsimp only
    rw [helem, Function.update_self, if_neg (not_ne_iff.mpr (hcommitted.symm.trans hnum))]
  · rw [hfree, h.lcFind_eq, hfind]
    rfl
  · rw [Option.isNone_iff_eq_none, hheld.lcFind_none_iff hx] at hnone
    rw [Option.isNone_iff_eq_none, h.lcFind_none_iff hx]
    intro j hj
    have hother := hnone j (by rw [hlc₁]; exact hj)
    rw [helem] at hother
    by_cases hji : j = i
    · rw [hji, Function.update_self] at hother
      rw [hji]
      exact hother
    · rw [Function.update_of_ne hji] at hother
      exact hother

theorem Held.begin_full (h : Held lc) (hstarving : lc.lcStarving = false)
    (hfind : lcFind lc enr = none) (hfree : lc.free = []) :
    ∃ lc', beginExtent lc enr = some (lc', false) ∧ Held lc' ∧ Begun lc lc' enr false := by
  refine ⟨{ lc with misses := lc.misses + 1, lcDirty := true, lcStarving := true }, ?_,
    h.congr ⟨rfl, fun k => by cases k <;> rfl, rfl, rfl, rfl, rfl, rfl⟩ rfl,
    .refused rfl rfl (.inr ⟨hfree, hfind⟩)⟩
  rw [h.lcFind_eq] at hfind
  have hunused : lcUnusedElement { lc with misses := lc.misses + 1, lcDirty := true } = none := by
    unfold lcUnusedElement
    dsimp only
    rw [hfree, h.noLru]
    rfl
  unfold beginExtent lcGet lcGetFlags
  rw [if_neg (Nat.pos_iff_ne_zero.mp h.rep.elements), if_neg (by rw [hstarving]; decide), hfind]
  dsimp only
  rw [if_neg (by decide), if_neg (by rw [h.unlocked]; decide), if_pos hunused]

/-- The label is new: a free element is taken for it. -/
theorem Held.begin_new (h : Held lc) (hreal : enr ≠ LC_FREE) (hstarving : lc.lcStarving = false)
    (hfind : lcFind lc enr = none) {rest : List Nat} (hfree : lc.free = i :: rest) :
    ∃ lc', beginExtent lc enr = some (lc', true) ∧ Held lc' ∧ Begun lc lc' enr true := by
  have hnew := (h.lcFind_none_iff hreal).1 hfind
  have hmiss := hfind
  rw [h.lcFind_eq] at hmiss
  have hunused : lcUnusedElement lc = some i := by rw [lcUnusedElement, hfree]
  obtain ⟨hi, hidle⟩ := h.rep.unused hunused
  have hpend : lc.pendingChanges < lc.maxPendingChanges := by
    rw [h.rep.counted.pending, h.settled]
    exact h.room
  have hold : (lc.lcElement i).lcNumber ≠ enr := by
    rw [← h.committed hi]
    exact hnew i hi
  obtain ⟨lc₁, hlc₁⟩ : ∃ lc₁ : LruCache, lc₁ = { (((({ lc with
      misses := lc.misses + 1, lcDirty := true } : LruCache).setElement i
        { lc.lcElement i with lcNewNumber := enr }).rehash i enr).moveToBeChanged i) with
      lcStarving := false
      used := lc.used + 1
      pendingChanges := lc.pendingChanges + 1
      lcElement := Function.update lc.lcElement i ⟨1, (lc.lcElement i).lcNumber, enr⟩ } := ⟨_, rfl⟩
  have hget : lcGet lc enr = some (lc₁, some i) := by
    unfold lcGet lcGetFlags
    rw [if_neg (Nat.pos_iff_ne_zero.mp h.rep.elements), if_neg (by rw [hstarving]; decide), hmiss]
    dsimp only
    rw [if_neg (by decide), if_neg (by rw [h.unlocked]; decide),
      if_neg (show ¬ lcUnusedElement _ = none from fun hc => by cases hunused.symm.trans hc),
      if_neg (Nat.not_le_of_lt hpend)]
    unfold lcPrepareForChange
    rw [show lcUnusedElement { lc with misses := lc.misses + 1, lcDirty := true } = some i from hunused]
    dsimp only
    rw [if_neg]
    · rw [hlc₁]
      simp [LruCache.setElement, LruCache.moveToBeChanged, LruCache.rehash, LruCache.unlink]
    · show ¬ (Function.update lc.lcElement i { lc.lcElement i with lcNewNumber := enr } i).refcnt ≠ 0
      rw [Function.update_self]
      exact not_ne_iff.mpr hidle
  have helem : lc₁.lcElement = Function.update lc.lcElement i ⟨1, (lc.lcElement i).lcNumber, enr⟩ := by
    rw [hlc₁]
  have hself : lc₁.lcElement i = ⟨1, (lc.lcElement i).lcNumber, enr⟩ := by rw [helem, Function.update_self]
  have hrep : Rep lc₁ := by
    refine h.rep.recycle hreal hnew hi hidle hpend (by rw [hlc₁]; rfl) (fun k => ?_) (by rw [hlc₁]; rfl) helem
      (by rw [hlc₁]) (by rw [hlc₁]) (by rw [hlc₁]; rfl)
    rw [hlc₁]
    cases k <;> rfl
  have hi₁ : i < lc₁.nrElements := by rw [hlc₁]; exact hi
  have hhome : (lc₁.lcElement i).home = .toBeChanged := by
    rw [hself]
    exact LcElement.home_toBeChanged hreal Nat.one_ne_zero hold
  have hrep' := Rep.commitOne hrep hi₁ hhome
  obtain ⟨lc', hlc'⟩ : ∃ lc' : LruCache, lc' = { (lc₁.setElement i { lc₁.lcElement i with
      lcNumber := (lc₁.lcElement i).lcNewNumber }).moveInUse i with
      pendingChanges := lc₁.pendingChanges - 1 } := ⟨_, rfl⟩
  rw [← hlc'] at hrep'
  have hheld : Held lc' := by
    refine ⟨hrep', ?_, ?_, ?_, ?_⟩
    · rw [hlc', hlc₁]
      show (lc.lru.erase i).erase i = []
      rw [h.noLru]
      rfl
    · rw [hlc', hlc₁]
      show ((i :: lc.toBeChanged.erase i)).erase i = []
      rw [h.settled]
      simp
    · rw [hlc', hlc₁]
      exact h.unlocked
    · rw [hlc', hlc₁]
      exact h.room
  have hnodup := h.rep.filed.nodup .free
  rw [LruCache.listOf, hfree] at hnodup
  refine ⟨lc', ?_, hheld, .taken hstarving (by rw [hlc', hlc₁]; rfl) ?_ fun x hx hnone => ?_⟩
  · unfold beginExtent
    rw [hget]
    dsimp only
    rw [if_pos (by rw [hself]; exact hold), hlc']
    rfl
  · rw [hfind, hlc', hlc₁]
    show ((lc.free.erase i).erase i).length + 1 = lc.free.length
    rw [hfree, List.erase_cons_head, List.erase_of_not_mem (List.nodup_cons.1 hnodup).1]
    rfl
  · rw [Option.isNone_iff_eq_none, hheld.lcFind_none_iff hx] at hnone
    rw [Option.isNone_iff_eq_none, h.lcFind_none_iff hx]
    intro j hj
    by_cases hji : j = i
    · -- it was free, so it had no label
      have hmem : i ∈ lc.listOf .free := by
        rw [LruCache.listOf, hfree]
        exact List.mem_cons_self
      have hh := ((h.rep.filed.mem .free i).mp hmem).2
      have hlabel : (lc.lcElement i).lcNewNumber = LC_FREE := by
        obtain ⟨-, -, -, hw⟩ | ⟨hne, -⟩ | ⟨hne, -⟩ | ⟨hne, -⟩ :=
          LcElement.home_cases (h.rep.filed.plain i hi)
        · exact hw
        all_goals cases hh.symm.trans hne
      rw [hji, hlabel]
      exact Ne.symm hx
    · have hother := hnone j (by rw [hlc', hlc₁]; exact hj)
      have hsame : lc'.lcElement j = lc.lcElement j := by
        rw [hlc']
        show Function.update lc₁.lcElement i _ j = _
        rw [Function.update_of_ne hji, helem, Function.update_of_ne hji]
      rw [hsame] at hother
      exact hother

theorem Held.begin (h : Held lc) (hreal : enr ≠ LC_FREE) :
    ∃ lc' ok, beginExtent lc enr = some (lc', ok) ∧ Held lc' ∧ Begun lc lc' enr ok := by
  cases hstarving : lc.lcStarving with
  | true =>
      obtain ⟨lc', hb⟩ := h.begin_starving hstarving
      exact ⟨lc', false, hb⟩
  | false =>
      cases hfind : lcFind lc enr with
      | some i =>
          obtain ⟨lc', hb⟩ := h.begin_hit hreal hstarving hfind
          exact ⟨lc', true, hb⟩
      | none =>
          cases hfree : lc.free with
          | nil =>
              obtain ⟨lc', hb⟩ := h.begin_full hstarving hfind hfree
              exact ⟨lc', false, hb⟩
          | cons i rest =>
              obtain ⟨lc', hb⟩ := h.begin_new hreal hstarving hfind hfree
              exact ⟨lc', true, hb⟩

/-- The rounds after one that was refused are refused, those with room are not. -/
theorem Held.beginIo (h : Held lc) {xs : List Nat} (hreal : ∀ x ∈ xs, x ≠ LC_FREE) :
    ∃ lc' ok, forExtents beginExtent lc xs = some (lc', ok) ∧ Held lc' ∧
      (lc.lcStarving = true → lc'.lcElement = lc.lcElement) ∧
      (lc.lcStarving = false → (xs.countP fun x => (lcFind lc x).isNone) ≤ lc.free.length → ok = true) := by
  induction xs generalizing lc with
  | nil => exact ⟨lc, true, rfl, h, fun _ => rfl, fun _ _ => rfl⟩
  | cons x xs ih =>
      obtain ⟨lc₁, ok₁, hx, h₁, hbegun⟩ := h.begin (hreal x List.mem_cons_self)
      obtain ⟨lc', oks, hrest, h', hsame, hok⟩ := ih h₁ fun y hy => hreal y (List.mem_cons_of_mem _ hy)
      refine ⟨lc', ok₁ && oks, ?_, h', fun hstarving => ?_, fun hstarving hroom => ?_⟩
      · unfold forExtents
        rw [hx]
        dsimp only
        rw [hrest]
      · cases hbegun with
        | refused helem hstarving₁ _ => rw [hsame hstarving₁, helem]
        | taken hno => rw [hstarving] at hno; cases hno
      · rw [List.countP_cons] at hroom
        cases hbegun with
        | refused _ _ hwhy =>
            rcases hwhy with hyes | ⟨hfree, hnone⟩
            · rw [hstarving] at hyes
              cases hyes
            · rw [hfree, hnone] at hroom
              simp at hroom
        | taken _ hstarving₁ hlen hgrow =>
            rw [Bool.true_and]
            refine hok hstarving₁ ?_
            have hle : (xs.countP fun y => (lcFind lc₁ y).isNone) ≤ xs.countP fun y => (lcFind lc y).isNone :=
              List.countP_mono_left fun y hy => hgrow y (hreal y (List.mem_cons_of_mem _ hy))
            omega

/-- A request that is refused has taken no reference. -/
theorem Held.begin_refused (h : Held lc) {xs : List Nat} (hreal : ∀ x ∈ xs, x ≠ LC_FREE)
    (hmid : NotMidway lc xs) (hio : forExtents beginExtent lc xs = some (lc', false)) :
    lc'.lcElement = lc.lcElement := by
  obtain ⟨lc₂, ok, hsome, _, hstarved, hroom⟩ := h.beginIo hreal
  cases hsome.symm.trans hio
  cases hstarving : lc.lcStarving with
  | true => exact hstarved hstarving
  | false =>
      rcases hmid with hyes | hfits | ⟨hfree, hhead⟩
      · rw [hstarving] at hyes
        cases hyes
      · cases hroom hstarving hfits
      · cases xs with
        | nil => cases hio
        | cons x xs =>
            -- the first extent finds no element, and after that none does
            obtain ⟨lc₁, hx, h₁, hbegun⟩ := h.begin_full hstarving (hhead x rfl) hfree
            obtain ⟨lc₃, oks, hrest, _, hsame, _⟩ := h₁.beginIo fun y hy => hreal y (List.mem_cons_of_mem _ hy)
            obtain ⟨lc₄, _, _, hx', hrest', _⟩ := forExtents_cons hio
            cases hx.symm.trans hx'
            cases hrest.symm.trans hrest'
            cases hbegun with
            | refused helem hstarving₁ _ => rw [hsame hstarving₁, helem]

/-! ## Completing -/

/-- A lookup does not depend on the counts. -/
theorem lcFind_recount (lc : LruCache) (i n x : Nat) :
    lcFind (lc.setElement i { lc.lcElement i with refcnt := n }) x = lcFind lc x := by
  have hnew : ∀ j, ((lc.setElement i { lc.lcElement i with refcnt := n }).lcElement j).lcNewNumber
      = (lc.lcElement j).lcNewNumber := by
    intro j
    show (Function.update lc.lcElement i _ j).lcNewNumber = _
    by_cases hj : j = i
    · rw [hj, Function.update_self]
    · rw [Function.update_of_ne hj]
  have hold : ∀ j, ((lc.setElement i { lc.lcElement i with refcnt := n }).lcElement j).lcNumber
      = (lc.lcElement j).lcNumber := by
    intro j
    show (Function.update lc.lcElement i _ j).lcNumber = _
    by_cases hj : j = i
    · rw [hj, Function.update_self]
    · rw [Function.update_of_ne hj]
  simp only [lcFind, lcFindAny, hnew, hold]
  rfl

/-- One round of a completion that leaves a reference. -/
theorem Held.compleate (h : Held lc) {clean : Bool} (hkeeps : KeepsOne lc clean enr) :
    ∃ lc' ok, compleateExtent clean lc enr = some (lc', ok) ∧ Held lc' ∧
      ∀ x, x ≠ enr → KeepsOne lc clean x → KeepsOne lc' clean x := by
  unfold compleateExtent
  cases hfind : lcFind lc enr with
  | none => exact ⟨lc, false, rfl, h, fun _ _ hx => hx⟩
  | some i =>
      obtain ⟨hi, hnum⟩ := h.rep.chained.find_some hfind
      dsimp only
      by_cases hzero : (lc.lcElement i).refcnt = 0
      · rw [if_pos hzero]
        exact ⟨lc, true, rfl, h, fun _ _ hx => hx⟩
      · obtain ⟨hclean, htwo⟩ := (hkeeps i hfind).resolve_left hzero
        rw [if_neg hzero, if_neg (by rw [hclean]; decide)]
        have hput : lcPut lc i = some (lc.setElement i
            { lc.lcElement i with refcnt := (lc.lcElement i).refcnt - 1 }, (lc.lcElement i).refcnt - 1) := by
          unfold lcPut
          dsimp only
          rw [if_neg, if_neg (by omega)]
          rintro (hle | h0 | hne)
          · exact absurd hi (Nat.not_lt.mpr hle)
          · exact hzero h0
          · exact hne (h.committed hi).symm
        obtain ⟨lc₁, cnt, hput₁, hrep, _⟩ := h.rep.put hi hzero (h.committed hi).symm
        cases hput.symm.trans hput₁
        rw [hput]
        dsimp only
        rw [if_neg (by omega)]
        refine ⟨_, true, rfl, ⟨hrep, h.noLru, h.settled, h.unlocked, h.room⟩, fun x hx hone j hj => ?_⟩
        rw [lcFind_recount] at hj
        have hne : j ≠ i := by
          rintro rfl
          exact hx ((h.rep.chained.find_some hj).2.symm.trans hnum)
        show (Function.update lc.lcElement i _ j).refcnt = 0 ∨ _ ∧ 2 ≤ (Function.update lc.lcElement i _ j).refcnt
        rw [Function.update_of_ne hne]
        exact hone j hj

theorem Held.compleateIo (h : Held lc) {clean : Bool} {xs : List Nat} (hnodup : xs.Nodup)
    (hkeeps : ∀ x ∈ xs, KeepsOne lc clean x) :
    ∃ lc' ok, forExtents (compleateExtent clean) lc xs = some (lc', ok) ∧ Held lc' := by
  induction xs generalizing lc with
  | nil => exact ⟨lc, true, rfl, h⟩
  | cons x xs ih =>
      obtain ⟨hnot, hnodup⟩ := List.nodup_cons.1 hnodup
      obtain ⟨lc₁, ok₁, hx, h₁, hothers⟩ := h.compleate (hkeeps x List.mem_cons_self)
      obtain ⟨lc', oks, hrest, h'⟩ := ih h₁ hnodup fun y hy =>
        hothers y (fun heq => hnot (heq ▸ hy)) (hkeeps y (List.mem_cons_of_mem _ hy))
      refine ⟨lc', ok₁ && oks, ?_, h'⟩
      unfold forExtents
      rw [hx]
      dsimp only
      rw [hrest]

/-! ## Every sequence of calls -/

theorem Held.step {op : CacheOp} (h : Held lc) (hcond : CacheCond lc op) :
    ∃ lc', cacheStep lc op = some lc' ∧ Held lc' := by
  cases op with
  | begin sector size =>
      obtain ⟨lc', ok, hio, h', _⟩ := h.beginIo hcond.1
      exact ⟨lc', by rw [cacheStep, drbdNoblockBeginIo, hio]; rfl, h'⟩
  | compleate sector size clean =>
      obtain ⟨lc', ok, hio, h'⟩ := h.compleateIo (extents_nodup sector size) hcond.2
      exact ⟨lc', by rw [cacheStep, drbdNoblockCompleateIo, hio]; rfl, h'⟩

/-- In a run in which no completion takes a last reference and no request runs out of elements midway, the
cache is what `lru_cache.c` relies on, no call fires a `BUG_ON`, and a refused request takes no reference. -/
theorem noblock_cache_sound {m n : Nat} (hm : 0 < m) (hn : 0 < n) {ops : List CacheOp}
    (hcond : Meets cacheStep CacheCond (lcCreate m n) ops) (hrun : run cacheStep (lcCreate m n) ops = some lc) :
    Sound lc ∧ (∀ op, CacheCond lc op → (cacheStep lc op).isSome) ∧
    ∀ sector size lc', CacheCond lc (.begin sector size) →
      drbdNoblockBeginIo lc sector size = some (lc', false) →
      ∀ i, (lc'.lcElement i).refcnt = (lc.lcElement i).refcnt := by
  have hheld : Held lc := by
    refine run_invariant (fun {s e s'} hs hc hstep => ?_) (Held.lcCreate hm hn) hcond hrun
    obtain ⟨t, ht, htheld⟩ := hs.step hc
    cases ht.symm.trans hstep
    exact htheld
  refine ⟨hheld.rep.sound, fun op hc => ?_, fun sector size lc' hc hio i => ?_⟩
  · obtain ⟨lc', hstep, _⟩ := hheld.step hc
    rw [hstep]
    rfl
  · rw [hheld.begin_refused hc.1 hc.2 hio]

/-- Two references to one extent, of which one is given back, and a request over two extents. -/
theorem noblock_cache_sound_two_references :
    ∃ lc, run cacheStep (lcCreate 1024 2000) [.begin 0 4096, .begin 0 4096, .compleate 0 4096 false,
      .begin 8184 8192] = some lc ∧ lc.used = 2 ∧ Sound lc := by
  have hobs : (run cacheStep (lcCreate 1024 2000) [.begin 0 4096, .begin 0 4096, .compleate 0 4096 false,
      .begin 8184 8192]).map (·.used) = some 2 := by decide +kernel
  obtain ⟨lc, hlc, hused⟩ := Option.map_eq_some_iff.mp hobs
  exact ⟨lc, hlc, hused, (noblock_cache_sound (by decide : 0 < 1024) (by decide : 0 < 2000) (by decide +kernel)
    hlc).1⟩

/-- One request begun and completed leaves an element without a label on the lru list. -/
theorem noblock_cache_unsound :
    ∃ lc, run cacheStep (lcCreate 1024 2000) [.begin 0 4096, .compleate 0 4096 false] = some lc ∧
      ¬ Sound lc := by
  have hobs : (run cacheStep (lcCreate 1024 2000) [.begin 0 4096, .compleate 0 4096 false]).map
      (fun lc => (lc.lru, (lc.lcElement 1999).lcNumber)) = some ([1999], LC_FREE) := by decide +kernel
  obtain ⟨lc, hlc, hl⟩ := Option.map_eq_some_iff.mp hobs
  rw [Prod.mk.injEq] at hl
  refine ⟨lc, hlc, fun hsound => ?_⟩
  exact (hsound.lru 1999 (by rw [hl.1]; exact List.mem_singleton.mpr rfl)).2.1 hl.2

end Drbd.Noblock
