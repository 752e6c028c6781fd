import Drbd.Lib.Bytes
import Drbd.Lru.Defs
import Mathlib.Data.List.Range

/-!
# `lc_create` when memory is short

The elements are allocated one by one, and the first that cannot be had makes `lc_create` give up. Its last loop
leaves the first element behind, or runs off the element array when there is none to free.
-/

namespace Drbd.Lru

open Lib

def LC_MAX_ACTIVE : Nat := 2 ^ 24

/-- What `lc_create` is given: the size of the objects of the slab cache, the three arrays, and the objects in the
order in which they are asked for. -/
structure Memory where
  objSize : Nat
  slot : Option Nat
  element : Option Nat
  lc : Option Nat
  object : Nat → Option Nat

/-- What is left of a call: the cache, the objects freed with the index each was found at, and the arrays freed. -/
structure Created where
  lc : Option LruCache
  freed : List (Nat × Nat)
  kfreed : List Nat

/-- `preallocate all objects`, at most `n` more of them from `i` on. -/
def preallocate (mem : Memory) (eOff : Nat) : Nat → Nat → LruCache → (Nat → Nat) → Nat × LruCache × (Nat → Nat)
  | 0, i, lc, element => (i, lc, element)
  | n + 1, i, lc, element =>
      match mem.object i with
      | none => (i, lc, element)
      | some p =>
          preallocate mem eOff n (i + 1)
            { lc with free := i :: lc.free, lcElement := Function.update lc.lcElement i .fresh }
            (Function.update element i (p + eOff))

/-- `for (...; i; i--)`; a look at an index outside of the array is an error. -/
def giveUp (eCount eOff : Nat) (element : Nat → Nat) : Nat → Except Nat (List (Nat × Nat))
  | 0 => .ok []
  | i + 1 =>
      if eCount ≤ i + 1 then .error (i + 1)
      else (giveUp eCount eOff element i).map fun freed => (i + 1, element (i + 1) - eOff) :: freed

/-- `lc_create`, with the allocations; `kfree(NULL)` does nothing. -/
def lcCreateFrom (mem : Memory) (maxPendingChanges eCount eSize eOff : Nat) : Except Nat Created :=
  if mem.objSize < eSize then .ok ⟨none, [], []⟩
  else if LC_MAX_ACTIVE < eCount then .ok ⟨none, [], []⟩
  else
    match mem.slot, mem.element, mem.lc with
    | none, _, _ => .ok ⟨none, [], []⟩
    | some slot, none, _ => .ok ⟨none, [], [slot]⟩
    | some slot, some element, none => .ok ⟨none, [], [element, slot]⟩
    | some slot, some element, some lc =>
        let (i, cache, elements) := preallocate mem eOff eCount 0
          { lcCreate maxPendingChanges 0 with nrElements := eCount } fun _ => 0
        if i = eCount then .ok ⟨some cache, [], []⟩
        -- `i--` of an unsigned
        else (giveUp eCount eOff elements (unsigned 32 (i - 1))).map fun freed => ⟨none, freed, [lc, element, slot]⟩

variable {mem : Memory} {maxPendingChanges eCount eSize eOff k n i : Nat} {element : Nat → Nat}

/-! ## All allocations succeed -/

theorem preallocate_all (eOff : Nat) (lc : LruCache) (element : Nat → Nat)
    (h : ∀ j, i ≤ j → j < i + n → ∃ p, mem.object j = some p) (hlc : ∀ j, lc.lcElement j = .fresh) :
    ∃ element', preallocate mem eOff n i lc element =
      (i + n, { lc with free := (List.range' i n).reverse ++ lc.free }, element') := by
  induction n generalizing i lc element with
  | zero => exact ⟨element, rfl⟩
  | succ n ih =>
      obtain ⟨p, hp⟩ := h i (Nat.le_refl i) (by omega)
      have hfresh : Function.update lc.lcElement i .fresh = lc.lcElement := by
        rw [← hlc i, Function.update_eq_self]
      obtain ⟨element', hrest⟩ := ih
        { lc with free := i :: lc.free, lcElement := Function.update lc.lcElement i .fresh }
        (Function.update element i (p + eOff)) (i := i + 1) (fun j hj hlt => h j (by omega) (by omega))
        (by rw [hfresh]; exact hlc)
      refine ⟨element', ?_⟩
      rw [preallocate, hp]
      dsimp only
      rw [hrest, hfresh, List.range'_succ, List.reverse_cons, List.append_assoc, List.singleton_append]
      simp only [Nat.add_assoc, Nat.add_comm 1 n]

/-- With memory enough, the cache is the one all operations start from. -/
theorem lcCreateFrom_all {slot elements lc : Nat} (hsize : eSize ≤ mem.objSize) (hfew : eCount ≤ LC_MAX_ACTIVE)
    (hslot : mem.slot = some slot) (helements : mem.element = some elements) (hlc : mem.lc = some lc)
    (hobject : ∀ i < eCount, ∃ p, mem.object i = some p) :
    lcCreateFrom mem maxPendingChanges eCount eSize eOff = .ok ⟨some (lcCreate maxPendingChanges eCount), [], []⟩ := by
  obtain ⟨element', hall⟩ := preallocate_all eOff
    { lcCreate maxPendingChanges 0 with nrElements := eCount } (fun _ => 0)
    (n := eCount) (i := 0) (fun j _ hj => hobject j (by omega)) (fun _ => rfl)
  unfold lcCreateFrom
  rw [if_neg (by omega), if_neg (by omega), hslot, helements, hlc]
  dsimp only
  rw [hall]
  dsimp only
  rw [if_pos (Nat.zero_add eCount), ← List.range_eq_range']
  simp only [lcCreate, List.range_zero, List.reverse_nil, List.append_nil]

/-! ## An allocation fails -/

/-- The arrays and the first `k` elements are allocated, and no more. -/
structure FailsAt (mem : Memory) (eCount eSize k : Nat) : Prop where
  size : eSize ≤ mem.objSize
  few : eCount ≤ LC_MAX_ACTIVE
  slot : mem.slot ≠ none
  element : mem.element ≠ none
  lc : mem.lc ≠ none
  lt : k < eCount
  before : ∀ i < k, mem.object i ≠ none
  fails : mem.object k = none

/-- The call gives back all it was given, each object once, and looks at no other element. -/
def GivesBack (mem : Memory) (k : Nat) (r : Except Nat Created) : Prop :=
  ∃ c, r = .ok c ∧ c.lc = none ∧ (c.freed.map Prod.snd).Perm ((List.range k).filterMap mem.object) ∧
    c.kfreed.Perm (mem.slot.toList ++ mem.element.toList ++ mem.lc.toList) ∧ ∀ x ∈ c.freed, x.1 < k

theorem preallocate_fails (eOff : Nat) (lc : LruCache) (element : Nat → Nat) (hik : i ≤ k) (hlt : k < i + n)
    (hfails : mem.object k = none)
    (hbefore : ∀ j, i ≤ j → j < k → mem.object j ≠ none) :
    ∃ lc' element', preallocate mem eOff n i lc element = (k, lc', element') ∧
      (∀ j, i ≤ j → j < k → ∀ p, mem.object j = some p → element' j = p + eOff) ∧
      ∀ j < i, element' j = element j := by
  induction n generalizing i lc element with
  | zero => omega
  | succ n ih =>
      rw [preallocate]
      rcases Nat.eq_or_lt_of_le hik with rfl | hik
      · rw [hfails]
        exact ⟨lc, element, rfl, fun j hj hlt => by omega, fun _ _ => rfl⟩
      · obtain ⟨p, hp⟩ := Option.ne_none_iff_exists'.1 (hbefore i (Nat.le_refl i) hik)
        rw [hp]
        obtain ⟨lc', element', hrest, hnew, hold⟩ := ih
          { lc with free := i :: lc.free, lcElement := Function.update lc.lcElement i .fresh }
          (Function.update element i (p + eOff)) hik (by omega) (fun j hj hlt => hbefore j (by omega) hlt)
        refine ⟨lc', element', hrest, fun j hj hlt q hq => ?_, fun j hj => ?_⟩
        · rcases Nat.eq_or_lt_of_le hj with rfl | hj
          · rw [hold i (by omega), Function.update_self]
            rw [hp] at hq
            cases hq
            rfl
          · exact hnew j hj hlt q hq
        · rw [hold j (by omega), Function.update_of_ne (by omega)]

theorem giveUp_eq (hi : i < eCount) :
    giveUp eCount eOff element i = .ok ((List.range' 1 i).reverse.map fun j => (j, element j - eOff)) := by
  induction i with
  | zero => rfl
  | succ i ih =>
      rw [giveUp, if_neg (by omega), ih (by omega), List.range'_concat, List.reverse_append, List.map_append]
      simp only [Except.map, Nat.one_mul, Nat.add_comm 1 i, List.reverse_singleton, List.map_singleton,
        List.singleton_append]

theorem FailsAt.lcCreateFrom_eq (h : FailsAt mem eCount eSize k) (maxPendingChanges eOff : Nat) :
    ∃ element' lc slot elements, mem.lc = some lc ∧ mem.slot = some slot ∧ mem.element = some elements ∧
      (∀ j < k, ∀ p, mem.object j = some p → element' j = p + eOff) ∧
      lcCreateFrom mem maxPendingChanges eCount eSize eOff =
        (giveUp eCount eOff element' (unsigned 32 ((k : Int) - 1))).map fun freed =>
          ⟨none, freed, [lc, elements, slot]⟩ := by
  obtain ⟨slot, hslot⟩ := Option.ne_none_iff_exists'.1 h.slot
  obtain ⟨elements, helements⟩ := Option.ne_none_iff_exists'.1 h.element
  obtain ⟨lc, hlc⟩ := Option.ne_none_iff_exists'.1 h.lc
  obtain ⟨lc', element', hpre, hnew, _⟩ := preallocate_fails eOff
    { lcCreate maxPendingChanges 0 with nrElements := eCount } (fun _ => 0) (n := eCount) (Nat.zero_le k)
    (by have := h.lt; omega) h.fails (fun j _ hj => h.before j hj)
  refine ⟨element', lc, slot, elements, hlc, hslot, helements, fun j => hnew j (Nat.zero_le j), ?_⟩
  have hsize := h.size
  have hfew := h.few
  unfold lcCreateFrom
  rw [if_neg (by omega), if_neg (by omega), hslot, helements, hlc]
  dsimp only
  rw [hpre]
  dsimp only
  rw [if_neg (Nat.ne_of_lt h.lt)]

/-- With nothing to free, the index wraps around and is looked up. -/
theorem lcCreateFrom_first (h : FailsAt mem eCount eSize 0) (maxPendingChanges eOff : Nat) :
    lcCreateFrom mem maxPendingChanges eCount eSize eOff = .error (2 ^ 32 - 1) := by
  obtain ⟨element', lc, slot, elements, _, _, _, _, heq⟩ := h.lcCreateFrom_eq maxPendingChanges eOff
  have hfew : eCount ≤ 2 ^ 24 := h.few
  rw [heq, show unsigned 32 (((0 : Nat) : Int) - 1) = 4294967294 + 1 from by decide, giveUp, if_pos (by omega)]
  rfl

/-- Otherwise all is given back but the element allocated first. -/
theorem lcCreateFrom_later (h : FailsAt mem eCount eSize (k + 1)) (maxPendingChanges eOff : Nat) :
    ∃ c, lcCreateFrom mem maxPendingChanges eCount eSize eOff = .ok c ∧ c.lc = none ∧
      c.kfreed.Perm (mem.slot.toList ++ mem.element.toList ++ mem.lc.toList) ∧ (∀ x ∈ c.freed, x.1 < k + 1) ∧
      c.freed.map Prod.snd = (List.range' 1 k).reverse.filterMap mem.object := by
  obtain ⟨element', lc, slot, elements, hlc, hslot, helements, hnew, heq⟩ := h.lcCreateFrom_eq
    maxPendingChanges eOff
  have hlt := h.lt
  have hfew : eCount ≤ 2 ^ 24 := h.few
  have hk : unsigned 32 (((k + 1 : Nat) : Int) - 1) = k := by
    unfold unsigned
    omega
  rw [hk, giveUp_eq (by omega)] at heq
  refine ⟨_, heq, rfl, ?_, fun x hx => ?_, ?_⟩
  · rw [hlc, hslot, helements]
    exact List.Perm.trans (List.Perm.swap _ _ _) (List.Perm.trans (List.Perm.cons _ (List.Perm.swap _ _ _))
      (List.Perm.swap _ _ _))
  · obtain ⟨j, hj, rfl⟩ := List.mem_map.1 hx
    rw [List.mem_reverse, List.mem_range'_1] at hj
    show j < k + 1
    omega
  · rw [List.map_map, ← List.filterMap_eq_map]
    refine List.filterMap_congr fun j hj => ?_
    rw [List.mem_reverse, List.mem_range'_1] at hj
    obtain ⟨p, hp⟩ := Option.ne_none_iff_exists'.1 (h.before j (by omega))
    rw [hp, Function.comp_apply, Function.comp_apply, hnew j (by omega) p hp, Nat.add_sub_cancel]

/-- Whichever element it is that cannot be allocated, `lc_create` does not clean up. -/
theorem lc_create_never_gives_back (h : FailsAt mem eCount eSize k) (maxPendingChanges eOff : Nat) :
    ¬ GivesBack mem k (lcCreateFrom mem maxPendingChanges eCount eSize eOff) := by
  rintro ⟨c, hok, -, hperm, -⟩
  cases k with
  | zero =>
      rw [lcCreateFrom_first h maxPendingChanges eOff] at hok
      cases hok
  | succ k =>
      obtain ⟨c', heq, _, _, _, hfreed⟩ := lcCreateFrom_later h maxPendingChanges eOff
      rw [heq] at hok
      cases hok
      -- every allocated element has an object, so the lengths differ by the one that is left
      have hlen : ∀ l : List Nat, (∀ j ∈ l, j < k + 1) → (l.filterMap mem.object).length = l.length := by
        intro l hl
        rw [List.length_filterMap_eq_countP, List.countP_eq_length]
        exact fun j hj => Option.isSome_iff_ne_none.2 (h.before j (hl j hj))
      have hcount := hperm.length_eq
      rw [hfreed, hlen _ (fun j hj => by rw [List.mem_reverse, List.mem_range'_1] at hj; omega),
        hlen _ (fun j hj => List.mem_range.1 hj), List.length_reverse, List.length_range', List.length_range] at hcount
      omega

/-- Seven elements are asked for, the allocator has memory for `left` of them. -/
def scarce (left : Nat) : Memory where
  objSize := 64
  slot := some 16
  element := some 17
  lc := some 18
  object i := if i < left then some (100 + i) else none

theorem scarce_failsAt (left : Nat) (h : left < 7) : FailsAt (scarce left) 7 64 left where
  size := Nat.le_refl _
  few := by decide
  slot := by intro h; cases h
  element := by intro h; cases h
  lc := by intro h; cases h
  lt := h
  before i hi := by
    rw [show (scarce left).object i = some (100 + i) from if_pos hi]
    exact Option.some_ne_none _
  fails := if_neg (Nat.lt_irrefl left)

theorem lc_create_never_gives_back_scarce :
    FailsAt (scarce 5) 7 64 5 ∧ ¬ GivesBack (scarce 5) 5 (lcCreateFrom (scarce 5) 64 7 64 8) :=
  ⟨scarce_failsAt 5 (by decide), lc_create_never_gives_back (scarce_failsAt 5 (by decide)) 64 8⟩

/-- The object at 100 is lost; and with no object at all the array is read far outside. -/
theorem lc_create_leaks :
    (lcCreateFrom (scarce 5) 64 7 64 8).map (fun c => (c.lc.isNone, c.freed, c.kfreed))
        = .ok (true, [(4, 104), (3, 103), (2, 102), (1, 101)], [18, 17, 16]) ∧
      ¬ GivesBack (scarce 5) 5 (lcCreateFrom (scarce 5) 64 7 64 8) ∧
      lcCreateFrom (scarce 0) 64 7 64 8 = .error (2 ^ 32 - 1) := by
  have hfive : (lcCreateFrom (scarce 5) 64 7 64 8).map (fun c => (c.lc.isNone, c.freed, c.kfreed))
      = .ok (true, [(4, 104), (3, 103), (2, 102), (1, 101)], [18, 17, 16]) := by decide
  refine ⟨hfive, ?_, lcCreateFrom_first (scarce_failsAt 0 (by decide)) 64 8⟩
  rintro ⟨c, hok, -, hperm, -⟩
  rw [hok] at hfive
  simp only [Except.map, Except.ok.injEq, Prod.mk.injEq] at hfive
  rw [hfive.2.1] at hperm
  exact absurd hperm.length_eq (by decide)

end Drbd.Lru
