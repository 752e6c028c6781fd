import Drbd.Lib.System
import Drbd.PagePool.Defs
import Mathlib.Algebra.BigOperators.Group.Finset.Basic
import Mathlib.Algebra.BigOperators.Fin
import Mathlib.Algebra.Order.Ring.Int
import Mathlib.Tactic.Ring

/-!
# No page is lost

Every page that the system has given away is in the pool or with one allocation. The places are a function of the
page, so no page is in two of them.
-/

namespace Drbd.PagePool

open Lib

variable {n : Nat} {s s' : Pool n} {priv : Page → Option Page} {page last : Page} {l : List Page}

/-! ## The loops on chains -/

/-- `page_chain_del` finds the `number`th page if there are so many. -/
theorem pageChainNth_linked {number : Nat} (hl : Linked priv (some page) l) (hnumber : 0 < number) :
    (∃ front last rest, l = front ++ last :: rest ∧ front.length + 1 = number ∧
        pageChainNth priv number page = some (last, priv last)) ∨
      l.length < number ∧ pageChainNth priv number page = none := by
  induction number generalizing page l with
  | zero => exact absurd hnumber (Nat.lt_irrefl 0)
  | succ number ih =>
      cases l with
      | nil => cases hl
      | cons a l =>
          obtain ⟨ha, hrest⟩ := hl
          cases ha
          cases number with
          | zero => exact .inl ⟨[], page, l, rfl, rfl, rfl⟩
          | succ number =>
              rw [pageChainNth]
              cases hnext : priv page with
              | none =>
                  rw [hnext] at hrest
                  rw [(Linked.eq_none hrest).1 rfl]
                  exact .inr ⟨by simp, rfl⟩
              | some tmp =>
                  rw [hnext] at hrest
                  rcases ih hrest (Nat.succ_pos number) with ⟨front, last, rest, rfl, hlen, hfound⟩ | ⟨hshort, hnone⟩
                  · exact .inl ⟨page :: front, last, rest, rfl, congrArg (· + 1) hlen, hfound⟩
                  · exact .inr ⟨Nat.succ_lt_succ hshort, hnone⟩

theorem pageChainDel_linked {number : Nat} {head : Option Page} (hl : Linked priv head l) (hnumber : 0 < number) :
    (∃ front last rest page, l = front ++ last :: rest ∧ front.length + 1 = number ∧ head = some page ∧
        pageChainDel priv head number = some (page, priv last, Function.update priv last none)) ∨
      pageChainDel priv head number = none := by
  unfold pageChainDel
  cases head with
  | none => exact .inr rfl
  | some page =>
      rw [Option.bind_some]
      rcases pageChainNth_linked hl hnumber with ⟨front, last, rest, hsplit, hlen, hfound⟩ | ⟨_, hnone⟩
      · exact .inl ⟨front, last, rest, page, hsplit, hlen, rfl, by rw [hfound, Option.map_some]⟩
      · exact .inr (by rw [hnone, Option.map_none])

/-- `page_chain_tail` finds the end of a chain, and its length. -/
theorem pageChainTail_linked {fuel i : Nat} (hl : Linked priv (some page) l) (hfuel : l.length ≤ fuel) :
    ∃ front last, l = front ++ [last] ∧ pageChainTail priv fuel page i = some (last, i + front.length) := by
  induction fuel generalizing page l i with
  | zero =>
      rw [List.length_eq_zero_iff.1 (Nat.le_zero.1 hfuel)] at hl
      cases hl
  | succ fuel ih =>
      cases l with
      | nil => cases hl
      | cons a l =>
          obtain ⟨ha, hrest⟩ := hl
          cases ha
          rw [pageChainTail]
          cases hnext : priv page with
          | none =>
              rw [hnext] at hrest
              rw [(Linked.eq_none hrest).1 rfl]
              exact ⟨[], page, rfl, rfl⟩
          | some tmp =>
              rw [hnext] at hrest
              obtain ⟨front, last, rfl, hfound⟩ := ih (i := i + 1) hrest (Nat.le_of_succ_le_succ hfuel)
              refine ⟨page :: front, last, rfl, ?_⟩
              dsimp only
              rw [hfound, List.length_cons, Nat.add_right_comm, Nat.add_assoc]

/-! ## Counters -/

section

variable (s : Pool n) (k : Fin n) (t : Task) (d d' : Nat) (b : Bool) (i : Int)

@[simp] theorem setTask_task : (s.setTask k t).task = Function.update s.task k t := rfl
@[simp] theorem setTask_priv : (s.setTask k t).priv = s.priv := rfl
@[simp] theorem setTask_drbdPpPool : (s.setTask k t).drbdPpPool = s.drbdPpPool := rfl
@[simp] theorem setTask_drbdPpVacant : (s.setTask k t).drbdPpVacant = s.drbdPpVacant := rfl
@[simp] theorem setTask_inUse : (s.setTask k t).inUse = s.inUse := rfl
@[simp] theorem setTask_ppInUse : (s.setTask k t).ppInUse = s.ppInUse := rfl
@[simp] theorem setTask_ppInUseByNet : (s.setTask k t).ppInUseByNet = s.ppInUseByNet := rfl

@[simp] theorem addInUse_task : (s.addInUse d b i).task = s.task := by cases b <;> rfl
@[simp] theorem addInUse_priv : (s.addInUse d b i).priv = s.priv := by cases b <;> rfl
@[simp] theorem addInUse_drbdPpPool : (s.addInUse d b i).drbdPpPool = s.drbdPpPool := by cases b <;> rfl
@[simp] theorem addInUse_drbdPpVacant : (s.addInUse d b i).drbdPpVacant = s.drbdPpVacant := by cases b <;> rfl
@[simp] theorem addInUse_inUse : (s.addInUse d b i).inUse = s.inUse := by cases b <;> rfl

@[simp] theorem addInUse_ppInUse :
    (s.addInUse d b i).ppInUse d' = s.ppInUse d' + if d = d' then (if b = false then i else 0) else 0 := by
  cases b with
  | true => simp [Pool.addInUse]
  | false =>
      by_cases hd : d = d'
      · subst hd
        simp [Pool.addInUse]
      · simp [Pool.addInUse, hd, Function.update_of_ne (Ne.symm hd)]

@[simp] theorem addInUse_ppInUseByNet :
    (s.addInUse d b i).ppInUseByNet d' = s.ppInUseByNet d' + if d = d' then (if b = true then i else 0) else 0 := by
  cases b with
  | false => simp [Pool.addInUse]
  | true =>
      by_cases hd : d = d'
      · subst hd
        simp [Pool.addInUse]
      · simp [Pool.addInUse, hd, Function.update_of_ne (Ne.symm hd)]

end

/-! ## The invariant -/

inductive Place (n : Nat)
  | system
  | pool
  | held (k : Fin n)

/-- The chain `l` is what the task is on. -/
def Carries (priv : Page → Option Page) : Task → List Page → Prop
  | .idle, l | .freed _ _, l => l = []
  | .deciding number, l | .deleting number, l => l = [] ∧ 0 < number
  | .growing number page i, l => Linked priv page l ∧ l.length = i ∧ i < number
  | .linking page last i _, l => Linked priv (some page) l ∧ l.length = i ∧ ∃ front, l = front ++ [last]
  | .holds number page _, l => Linked priv page l ∧ l.length = number ∧ 0 < number
  | .freeing page _ _, l => Linked priv page l ∧ l ≠ []

/-- The pages of a task that a counter counts. -/
def weight (isNet : Bool) : Task → List Page → Int
  | .holds number _ (some b), _ => if b = isNet then number else 0
  | .linking _ _ i (some b), _ => if b = isNet then i else 0
  | .freeing _ i b, l => if b = isNet then i + l.length else 0
  | .freed i b, _ => if b = isNet then i else 0
  | _, _ => 0

structure PoolInv (device : Fin n → Nat) (s : Pool n) (pool : List Page) (held : Fin n → List Page)
    (place : Page → Place n) : Prop where
  linked : Linked s.priv s.drbdPpPool pool
  vacant : s.drbdPpVacant = pool.length
  inPool : pool.Nodup ∧ ∀ p, p ∈ pool ↔ place p = .pool
  isHeld : ∀ k, (held k).Nodup ∧ ∀ p, p ∈ held k ↔ place p = .held k
  inUse : s.inUse.Nodup ∧ ∀ p, p ∈ s.inUse ↔ place p ≠ .system
  task : ∀ k, Carries s.priv (s.task k) (held k)
  ppInUse : ∀ d, s.ppInUse d = ∑ k, if device k = d then weight false (s.task k) (held k) else 0
  ppInUseByNet : ∀ d, s.ppInUseByNet d = ∑ k, if device k = d then weight true (s.task k) (held k) else 0

theorem Carries.congr {priv' : Page → Option Page} {t : Task} (heq : ∀ p ∈ l, priv p = priv' p) (h : Carries priv t l) :
    Carries priv' t l := by
  cases t with
  | idle | freed | deciding | deleting => exact h
  | growing | linking | holds | freeing => exact ⟨(segment_congr heq).1 h.1, h.2⟩

variable {device : Fin n → Nat} {pool pool' : List Page} {held : Fin n → List Page} {place place' : Page → Place n}
  {k : Fin n} {t : Task}

theorem sum_change (f : Fin n → Int) (k : Fin n) (b : Int) :
    ∑ j, Function.update f k b j = ∑ j, f j + (b - f k) := by
  rw [Finset.sum_update_of_mem (Finset.mem_univ k), Finset.sdiff_singleton_eq_erase,
    ← Finset.add_sum_erase _ f (Finset.mem_univ k)]
  ring

/-- A step of allocation `k` moves pages between it, the pool and the system, and nobody else's. -/
theorem PoolInv.move (hI : PoolInv device s pool held place) (htask : s'.task = Function.update s.task k t)
    (hothers : ∀ j, j ≠ k → ∀ p ∈ held j, s.priv p = s'.priv p)
    (hplace : ∀ p j, j ≠ k → (place' p = .held j ↔ place p = .held j))
    (hlinked : Linked s'.priv s'.drbdPpPool pool') (hvacant : s'.drbdPpVacant = pool'.length)
    (hpool : pool'.Nodup ∧ ∀ p, p ∈ pool' ↔ place' p = .pool)
    (hheld : l.Nodup ∧ ∀ p, p ∈ l ↔ place' p = .held k)
    (hinUse : s'.inUse.Nodup ∧ ∀ p, p ∈ s'.inUse ↔ place' p ≠ .system) (hcarries : Carries s'.priv t l)
    (hppInUse : ∀ d, s'.ppInUse d = s.ppInUse d +
      if device k = d then weight false t l - weight false (s.task k) (held k) else 0)
    (hppInUseByNet : ∀ d, s'.ppInUseByNet d = s.ppInUseByNet d +
      if device k = d then weight true t l - weight true (s.task k) (held k) else 0) :
    PoolInv device s' pool' (Function.update held k l) place' := by
  have hsum : ∀ (b : Bool) d, (∑ j, if device j = d then weight b (s'.task j) (Function.update held k l j) else 0) =
      (∑ j, if device j = d then weight b (s.task j) (held j) else 0) +
        if device k = d then weight b t l - weight b (s.task k) (held k) else 0 := by
    intro b d
    have hupdate : (fun j => if device j = d then weight b (s'.task j) (Function.update held k l j) else 0) =
        Function.update (fun j => if device j = d then weight b (s.task j) (held j) else 0) k
          (if device k = d then weight b t l else 0) := by
      funext j
      rw [htask]
      by_cases hj : j = k
      · subst hj
        rw [Function.update_self, Function.update_self, Function.update_self]
      · rw [Function.update_of_ne hj, Function.update_of_ne hj, Function.update_of_ne hj]
    rw [hupdate, sum_change]
    split <;> simp
  refine ⟨hlinked, hvacant, hpool, fun j => ?_, hinUse, fun j => ?_, fun d => ?_, fun d => ?_⟩
  · by_cases hj : j = k
    · subst hj
      rwa [Function.update_self]
    · rw [Function.update_of_ne hj]
      exact ⟨(hI.isHeld j).1, fun p => by rw [(hI.isHeld j).2 p, hplace p j hj]⟩
  · rw [htask]
    by_cases hj : j = k
    · subst hj
      rwa [Function.update_self, Function.update_self]
    · rw [Function.update_of_ne hj, Function.update_of_ne hj]
      exact (hI.task j).congr (hothers j hj)
  · rw [hppInUse, hsum, hI.ppInUse]
  · rw [hppInUseByNet, hsum, hI.ppInUseByNet]

/-- A step in which no page moves. -/
theorem PoolInv.stay (hI : PoolInv device s pool held place) (htask : s'.task = Function.update s.task k t)
    (hpriv : s'.priv = s.priv) (hhead : s'.drbdPpPool = s.drbdPpPool) (hvacant : s'.drbdPpVacant = s.drbdPpVacant)
    (hinUse : s'.inUse = s.inUse) (hcarries : Carries s.priv t (held k))
    (hppInUse : ∀ d, s'.ppInUse d = s.ppInUse d +
      if device k = d then weight false t (held k) - weight false (s.task k) (held k) else 0)
    (hppInUseByNet : ∀ d, s'.ppInUseByNet d = s.ppInUseByNet d +
      if device k = d then weight true t (held k) - weight true (s.task k) (held k) else 0) :
    PoolInv device s' pool held place := by
  have hmove := hI.move (l := held k) htask (fun _ _ _ _ => by rw [hpriv]) (fun _ _ _ => Iff.rfl)
    (by rw [hpriv, hhead]; exact hI.linked) (hvacant.trans hI.vacant) hI.inPool (hI.isHeld k)
    (by rw [hinUse]; exact hI.inUse)
    (by rwa [hpriv]) hppInUse hppInUseByNet
  rwa [Function.update_eq_self] at hmove

/-- Nor is anything counted. -/
theorem PoolInv.retask (hI : PoolInv device s pool held place) (hcarries : Carries s.priv t (held k))
    (hweight : ∀ b, weight b t (held k) = weight b (s.task k) (held k)) :
    PoolInv device (s.setTask k t) pool held place := by
  refine hI.stay rfl rfl rfl rfl rfl hcarries (fun d => ?_) (fun d => ?_) <;>
  · rw [hweight, sub_self, ite_self, add_zero]
    rfl

/-- One of the counters goes along. -/
theorem PoolInv.recount {b : Bool} {i : Int} (hI : PoolInv device s pool held place)
    (hcarries : Carries s.priv t (held k))
    (hweight : ∀ b', weight b' t (held k) = weight b' (s.task k) (held k) + if b = b' then i else 0) :
    PoolInv device ((s.addInUse (device k) b i).setTask k t) pool held place := by
  refine hI.stay (by simp) (by simp) (by simp) (by simp) (by simp) hcarries (fun d => ?_) (fun d => ?_) <;>
  · rw [hweight, add_sub_cancel_left]
    simp

/-! ## Steps -/

/-- The pages of `l` go to `c`. -/
def relocate (l : List Page) (c : Place n) (place : Page → Place n) : Page → Place n := fun p =>
  if p ∈ l then c else place p

section

variable {c d old : Place n} {p : Page}

theorem relocate_gained : relocate l c place p = c ↔ p ∈ l ∨ place p = c := by
  unfold relocate
  by_cases hp : p ∈ l
  · simp [hp]
  · simp [hp]

theorem relocate_lost (hc : c ≠ old) :
    relocate l c place p = old ↔ place p = old ∧ p ∉ l := by
  unfold relocate
  by_cases hp : p ∈ l
  · simp [hp, hc]
  · simp [hp]

theorem relocate_other (hl : ∀ p ∈ l, place p = old) (hc : c ≠ d) (hold : old ≠ d) :
    relocate l c place p = d ↔ place p = d := by
  unfold relocate
  by_cases hp : p ∈ l
  · simp [hp, hc, hl p hp, hold]
  · simp [hp]

end

/-- The chains of others are not touched by a write to a page that is elsewhere. -/
theorem PoolInv.others (hI : PoolInv device s pool held place) {v : Option Page} {j : Fin n} {p q : Page}
    (hq : place q ≠ .held j) (hp : p ∈ held j) : s.priv p = Function.update s.priv q v p := by
  have hne : p ≠ q := by
    rintro rfl
    exact hq (((hI.isHeld j).2 p).1 hp)
  rw [Function.update_of_ne hne]

theorem PoolInv.held_length (hI : PoolInv device s pool held place) (k : Fin n) :
    (held k).length ≤ s.inUse.length := by
  refine ((hI.isHeld k).1.subperm fun p hp => ?_).length_le
  rw [hI.inUse.2, ((hI.isHeld k).2 p).1 hp]
  nofun

/-- The tail of a chain that an allocation has is found. -/
theorem PoolInv.tail (hI : PoolInv device s pool held place) (hl : Linked s.priv (some page) (held k)) :
    ∃ front last, held k = front ++ [last] ∧ s.tail page = some (last, (held k).length) := by
  obtain ⟨front, last, heq, htail⟩ := pageChainTail_linked (i := 1) hl (hI.held_length k)
  refine ⟨front, last, heq, ?_⟩
  rw [Pool.tail, htail, heq, List.length_append, List.length_singleton, Nat.add_comm]

/-- `page_chain_del` cuts the first pages of the pool off, or the allocation goes to the system. -/
theorem PoolInv.del (hI : PoolInv device s pool held place) {number : Nat} (htask : s.task k = .deleting number) :
    ∃ pool' held' place', PoolInv device (s.del k number) pool' held' place' := by
  have hcarries := hI.task k
  rw [htask] at hcarries
  obtain ⟨hempty, hnumber⟩ := hcarries
  unfold Pool.del
  rcases pageChainDel_linked hI.linked hnumber with ⟨front, last, rest, page, rfl, hlen, hhead, hfound⟩ | hnone
  · rw [hfound]
    dsimp only
    obtain ⟨hnodup, hplaced⟩ := hI.inPool
    have hlast : last ∉ front := fun hmem => List.disjoint_of_nodup_append hnodup hmem List.mem_cons_self
    have hrest : last ∉ rest := (List.nodup_cons.1 (List.Nodup.of_append_right hnodup)).1
    have hwhole : (front ++ [last]) ++ rest = front ++ last :: rest := by rw [List.append_assoc, List.singleton_append]
    rw [← hwhole] at hnodup hplaced
    have hlinked := hI.linked
    rw [← hwhole] at hlinked
    obtain ⟨u, hfront, hrest'⟩ := segment_append.1 hlinked
    obtain ⟨_, _, _, hu⟩ := segment_append.1 hfront
    have hcut : ∀ p ∈ front ++ [last], place p = .pool := fun p hp => (hplaced p).1 (List.mem_append_left rest hp)
    have hlast' : place last = .pool := hcut last (List.mem_append_right front List.mem_cons_self)
    refine ⟨rest, Function.update held k (front ++ [last]), relocate (front ++ [last]) (.held k) place,
      hI.move rfl (fun j _ p hp => hI.others (by rw [hlast']; nofun) hp) (fun p j hj => ?_) ?_ ?_
      ⟨(List.nodup_append.1 hnodup).2.1, fun p => ?_⟩ ⟨(List.nodup_append.1 hnodup).1, fun p => ?_⟩
      ⟨hI.inUse.1, fun p => ?_⟩ ⟨?_, ?_, hnumber⟩ (fun d => ?_) (fun d => ?_)⟩
    · exact relocate_other hcut (fun heq => hj (by cases heq; rfl)) (by nofun)
    · change Segment (Function.update s.priv last none) (s.priv last) rest none
      rw [segment_update hrest, hu]
      exact hrest'
    · change s.drbdPpVacant - number = rest.length
      rw [hI.vacant, ← hlen, List.length_append, List.length_cons]
      push_cast
      ring
    · rw [relocate_lost (by nofun), ← hplaced, List.mem_append]
      exact ⟨fun hp => ⟨.inr hp, fun hp' => List.disjoint_of_nodup_append hnodup hp' hp⟩,
        fun ⟨hp, hp'⟩ => hp.resolve_left hp'⟩
    · rw [relocate_gained, ← (hI.isHeld k).2 p, hempty]
      simp
    · change p ∈ s.inUse ↔ _
      rw [hI.inUse.2, ne_eq, ne_eq, relocate_other hcut (by nofun) (by nofun)]
    · rw [← hhead]
      exact hfront.redirect hlast
    · rw [List.length_append, List.length_singleton]
      exact hlen
    · simp [htask, weight]
    · simp [htask, weight]
  · rw [hnone]
    exact ⟨pool, held, place, hI.stay rfl rfl rfl rfl rfl ⟨by rw [hempty]; rfl, by rw [hempty]; rfl, hnumber⟩
      (fun d => by simp [htask, weight]) (fun d => by simp [htask, weight])⟩

/-- A page of the system joins the chain of an allocation. -/
theorem PoolInv.grow (hI : PoolInv device s pool held place) {number i : Nat} {page : Option Page} {p : Page}
    (htask : s.task k = .growing number page i) (hp : p ∉ s.inUse) :
    ∃ pool' held' place', PoolInv device ({ s with
      inUse := p :: s.inUse, priv := Function.update s.priv p page }.setTask k (Pool.grown number (some p) (i + 1)))
      pool' held' place' := by
  have hcarries := hI.task k
  rw [htask] at hcarries
  obtain ⟨hlinked, hlen, hlt⟩ := hcarries
  have hsystem : place p = .system := by
    by_contra hne
    exact hp ((hI.inUse.2 p).2 hne)
  have hmove : ∀ q ∈ [p], place q = .system := fun q hq => by rw [List.mem_singleton.1 hq, hsystem]
  have hnotpool : p ∉ pool := fun hmem => by simp [(hI.inPool.2 p).1 hmem] at hsystem
  have hnotheld : p ∉ held k := fun hmem => by simp [((hI.isHeld k).2 p).1 hmem] at hsystem
  have hgrown : Carries (Function.update s.priv p page) (Pool.grown number (some p) (i + 1)) (p :: held k) := by
    have hpush := hlinked.push hnotheld
    unfold Pool.grown
    split
    · rename_i hdone
      exact ⟨hpush, by rw [List.length_cons, hlen, hdone], by omega⟩
    · exact ⟨hpush, by rw [List.length_cons, hlen], by omega⟩
  have hweight : ∀ b, weight b (Pool.grown number (some p) (i + 1)) (p :: held k) = 0 := fun b => by
    unfold Pool.grown
    split <;> rfl
  refine ⟨pool, Function.update held k (p :: held k), relocate [p] (.held k) place,
    hI.move rfl (fun j _ q hq => hI.others (by rw [hsystem]; nofun) hq) (fun q j hj => ?_) ?_ hI.vacant
    ⟨hI.inPool.1, fun q => ?_⟩ ⟨List.nodup_cons.2 ⟨hnotheld, (hI.isHeld k).1⟩, fun q => ?_⟩
    ⟨List.nodup_cons.2 ⟨hp, hI.inUse.1⟩, fun q => ?_⟩ hgrown (fun d => ?_) (fun d => ?_)⟩
  · exact relocate_other hmove (fun heq => hj (by cases heq; rfl)) (by nofun)
  · exact (segment_update hnotpool).2 hI.linked
  · rw [relocate_other hmove (by nofun) (by nofun)]
    exact hI.inPool.2 q
  · rw [relocate_gained, List.mem_cons, List.mem_singleton, (hI.isHeld k).2 q]
  · change q ∈ p :: s.inUse ↔ _
    rw [ne_eq, relocate_lost (by nofun), List.mem_cons, hI.inUse.2 q, List.mem_singleton]
    tauto
  · rw [hweight, htask]
    simp [weight]
  · rw [hweight, htask]
    simp [weight]

/-- `page_chain_add` puts a chain in front of the pool; its `BUG_ON` does not fire. -/
theorem PoolInv.link (hI : PoolInv device s pool held place) {i : Nat} {isNet : Option Bool}
    (htask : s.task k = .linking page last i isNet) :
    ∃ s', s.link k page last i isNet = some s' ∧ ∃ pool' held' place', PoolInv device s' pool' held' place' := by
  have hcarries := hI.task k
  rw [htask] at hcarries
  obtain ⟨hlinked, hlen, front, hfront⟩ := hcarries
  obtain ⟨front', last', hfront', htail⟩ := hI.tail hlinked
  have hlast : last' = last := (List.append_inj' (hfront'.symm.trans hfront) rfl).2 |> List.singleton_inj.1
  subst hlast
  unfold Pool.link
  rw [htail, Option.bind_some]
  dsimp only
  rw [if_neg (not_not.2 rfl)]
  refine ⟨_, rfl, held k ++ pool, Function.update held k [], relocate (held k) .pool place, ?_⟩
  have hmove : ∀ p ∈ held k, place p = .held k := fun p => ((hI.isHeld k).2 p).1
  have hmem : last' ∈ held k := by
    rw [hfront]
    exact List.mem_append_right front List.mem_cons_self
  have hnotpool : last' ∉ pool := fun hp => by
    have := (hI.inPool.2 last').1 hp
    rw [hmove last' hmem] at this
    cases this
  have hnodup := (hI.isHeld k).1
  have hnotfront : last' ∉ front := fun hp => by
    rw [hfront] at hnodup
    exact List.disjoint_of_nodup_append hnodup hp List.mem_cons_self
  have hdisjoint : List.Disjoint (held k) pool := fun p hp hp' => by
    have := (hI.inPool.2 p).1 hp'
    rw [hmove p hp] at this
    cases this
  refine hI.move rfl (fun j hj p hp => hI.others (fun heq => ?_) hp) (fun p j hj => ?_) ?_ ?_
    ⟨hnodup.append hI.inPool.1 hdisjoint, fun p => ?_⟩ ⟨List.nodup_nil, fun p => ?_⟩ ⟨hI.inUse.1, fun p => ?_⟩ ?_
    (fun d => ?_) (fun d => ?_)
  · rw [hmove last' hmem] at heq
    exact hj (by cases heq; rfl)
  · exact relocate_other hmove (by nofun) (fun heq => hj (by cases heq; rfl))
  · refine segment_append.2 ⟨s.drbdPpPool, ?_, (segment_update hnotpool).2 hI.linked⟩
    rw [hfront] at hlinked ⊢
    exact hlinked.redirect hnotfront
  · change s.drbdPpVacant + i = (held k ++ pool).length
    rw [hI.vacant, List.length_append, hlen]
    push_cast
    ring
  · rw [relocate_gained, List.mem_append, hI.inPool.2]
  · rw [relocate_lost (by nofun), (hI.isHeld k).2 p]
    simp
  · change p ∈ s.inUse ↔ _
    rw [hI.inUse.2, ne_eq, ne_eq, relocate_other hmove (by nofun) (by nofun)]
  · cases isNet <;> rfl
  · rw [htask]
    cases isNet <;> simp [weight]
  · rw [htask]
    cases isNet <;> simp [weight]

/-- `page_chain_free` gives one more page to the system. -/
theorem PoolInv.put (hI : PoolInv device s pool held place) {i : Nat} {isNet : Bool}
    (htask : s.task k = .freeing (some page) i isNet) :
    ∃ pool' held' place', PoolInv device ({ s with inUse := s.inUse.erase page }.setTask k
      (match s.priv page with | none => .freed (i + 1) isNet | some tmp => .freeing (some tmp) (i + 1) isNet))
      pool' held' place' := by
  have hcarries := hI.task k
  rw [htask] at hcarries
  obtain ⟨hlinked, hne⟩ := hcarries
  obtain ⟨a, rest, hheld⟩ := List.exists_cons_of_ne_nil hne
  rw [hheld] at hlinked
  have ha : a = page := Option.some_inj.1 hlinked.head.symm
  subst ha
  have hrest := hlinked.tail
  have hplaced : place a = .held k := ((hI.isHeld k).2 a).1 (by rw [hheld]; exact List.mem_cons_self)
  have hmove : ∀ q ∈ [a], place q = .held k := fun q hq => by rw [List.mem_singleton.1 hq, hplaced]
  have hnodup := (hI.isHeld k).1
  rw [hheld, List.nodup_cons] at hnodup
  refine ⟨pool, Function.update held k rest, relocate [a] .system place,
    hI.move rfl (fun _ _ _ _ => rfl) (fun q j hj => ?_) hI.linked hI.vacant ⟨hI.inPool.1, fun q => ?_⟩
    ⟨hnodup.2, fun q => ?_⟩ ⟨hI.inUse.1.erase a, fun q => ?_⟩ ?_ (fun d => ?_) (fun d => ?_)⟩
  · exact relocate_other hmove (by nofun) (fun heq => hj (by cases heq; rfl))
  · rw [relocate_other hmove (by nofun) (by nofun)]
    exact hI.inPool.2 q
  · rw [relocate_lost (by nofun), ← (hI.isHeld k).2 q, hheld, List.mem_cons, List.mem_singleton]
    refine ⟨fun hq => ⟨.inr hq, ?_⟩, fun ⟨hq, hne⟩ => hq.resolve_left hne⟩
    rintro rfl
    exact hnodup.1 hq
  · change q ∈ s.inUse.erase a ↔ _
    rw [hI.inUse.1.mem_erase_iff, ne_eq, ne_eq, relocate_gained, hI.inUse.2 q, List.mem_singleton]
    tauto
  · cases hnext : s.priv a with
    | none =>
        rw [hnext] at hrest
        exact (Linked.eq_none hrest).1 rfl
    | some tmp =>
        rw [hnext] at hrest
        exact ⟨hrest, fun hnil => absurd ((Linked.eq_none hrest).2 hnil) nofun⟩
  all_goals
    rw [htask, hheld]
    cases hnext : s.priv a with
    | none =>
        rw [hnext] at hrest
        rw [(Linked.eq_none hrest).1 rfl]
        simp [weight]
    | some tmp =>
        have hsame : (i : Int) + (rest.length + 1) = i + 1 + rest.length := by ring
        simp [weight, hsame]

/-- Somebody writes to a page of the system. -/
theorem PoolInv.scribble (hI : PoolInv device s pool held place) {p : Page} {v : Option Page} (hp : p ∉ s.inUse) :
    PoolInv device { s with priv := Function.update s.priv p v } pool held place := by
  have hsystem : place p = .system := by
    by_contra hne
    exact hp ((hI.inUse.2 p).2 hne)
  have hnotpool : p ∉ pool := fun hmem => by simp [(hI.inPool.2 p).1 hmem] at hsystem
  exact ⟨(segment_update hnotpool).2 hI.linked, hI.vacant, hI.inPool, hI.isHeld, hI.inUse,
    fun j => (hI.task j).congr fun q hq => hI.others (by rw [hsystem]; nofun) hq, hI.ppInUse, hI.ppInUseByNet⟩

/-- What a thread, the system or somebody else may do next. -/
inductive Pool.Enabled (s : Pool n) : PoolEvent n → Prop
  | alloc {k number} : s.task k = .idle → 0 < number → s.Enabled (.act k (.alloc number))
  | test {k number} : s.task k = .deciding number → s.Enabled (.act k .test)
  | del {k number} : s.task k = .deleting number → s.Enabled (.act k .del)
  | page {k number page i p} : s.task k = .growing number page i → p ∉ s.inUse → s.Enabled (.act k (.page p))
  | noPage {k number page i} : s.task k = .growing number page i → s.Enabled (.act k .noPage)
  | link {k page last i isNet} : s.task k = .linking page last i isNet → s.Enabled (.act k .link)
  | count {k number page} : s.task k = .holds number page none → s.Enabled (.act k .count)
  | toNet {k number page} : s.task k = .holds number page (some false) → s.Enabled (.act k .toNet)
  | free {k number page isNet} : s.task k = .holds number page (some isNet) → s.Enabled (.act k .free)
  | put {k page i isNet} : s.task k = .freeing page i isNet → s.Enabled (.act k .put)
  | sub {k i isNet} : s.task k = .freed i isNet → s.Enabled (.act k .sub)
  | scribble {p v} : p ∉ s.inUse → s.Enabled (.scribble p v)

variable {limit : Nat} {ev : PoolEvent n}

theorem enabled_of_step (h : s.step limit device ev = some s') : s.Enabled ev := by
  cases ev with
  | scribble p v =>
      simp only [Pool.step] at h
      split at h
      · cases h
      · exact .scribble ‹_›
  | act k a =>
      simp only [Pool.step] at h
      unfold Pool.act at h
      split at h
      · split at h
        · exact .alloc ‹_› ‹_›
        · cases h
      · exact .test ‹_›
      · exact .del ‹_›
      · split at h
        · cases h
        · exact .page ‹_› ‹_›
      · exact .noPage ‹_›
      · exact .link ‹_›
      · exact .count ‹_›
      · exact .toNet ‹_›
      · exact .free ‹_›
      · exact .put ‹_›
      · exact .sub ‹_›
      · cases h

/-- Whatever may be done succeeds, and keeps every page in its place. -/
theorem pool_step (hI : PoolInv device s pool held place) (he : s.Enabled ev) :
    ∃ s', s.step limit device ev = some s' ∧ ∃ pool' held' place', PoolInv device s' pool' held' place' := by
  cases he with
  | scribble hp => exact ⟨_, if_neg hp, pool, held, place, hI.scribble hp⟩
  | @alloc k number htask hnumber =>
      have hcarries := hI.task k
      rw [htask] at hcarries
      refine ⟨s.setTask k (.deciding number), by simp only [Pool.step, Pool.act, htask, hnumber, if_true], pool, held,
        place, hI.retask ⟨hcarries, hnumber⟩ fun b => ?_⟩
      rw [htask]
      rfl
  | @test k number htask =>
      have hcarries := hI.task k
      rw [htask] at hcarries
      refine ⟨s.setTask k (if number ≤ unsigned 32 s.drbdPpVacant then .deleting number else .growing number none 0),
        by simp only [Pool.step, Pool.act, htask], pool, held, place, hI.retask ?_ fun b => ?_⟩
      · split
        · exact hcarries
        · exact ⟨by rw [hcarries.1]; rfl, by rw [hcarries.1]; rfl, hcarries.2⟩
      · rw [htask]
        split <;> rfl
  | @del k number htask => exact ⟨s.del k number, by simp only [Pool.step, Pool.act, htask], hI.del htask⟩
  | @page k number page i p htask hp =>
      exact ⟨_, by simp only [Pool.step, Pool.act, htask, hp, if_false], hI.grow htask hp⟩
  | @noPage k number page i htask =>
      have hcarries := hI.task k
      rw [htask] at hcarries
      cases page with
      | none =>
          refine ⟨s.setTask k .idle, by simp only [Pool.step, Pool.act, htask], pool, held, place,
            hI.retask ((Linked.eq_none hcarries.1).1 rfl) fun b => ?_⟩
          rw [htask]
          rfl
      | some page =>
          obtain ⟨front, last, hheld, htail⟩ := hI.tail hcarries.1
          refine ⟨s.setTask k (.linking page last i none),
            by simp only [Pool.step, Pool.act, htask, htail, Option.map_some], pool, held, place,
            hI.retask ⟨hcarries.1, hcarries.2.1, front, hheld⟩ fun b => ?_⟩
          rw [htask]
          rfl
  | @link k page last i isNet htask =>
      obtain ⟨s', hlink, hinv⟩ := hI.link htask
      exact ⟨s', by simp only [Pool.step, Pool.act, htask, hlink], hinv⟩
  | @count k number page htask =>
      have hcarries := hI.task k
      rw [htask] at hcarries
      refine ⟨(s.addInUse (device k) false number).setTask k (.holds number page (some false)),
        by simp only [Pool.step, Pool.act, htask], pool, held, place, hI.recount hcarries fun b => ?_⟩
      rw [htask]
      simp [weight]
  | @toNet k number page htask =>
      have hcarries := hI.task k
      rw [htask] at hcarries
      refine ⟨((s.addInUse (device k) true number).addInUse (device k) false (-number)).setTask k
        (.holds number page (some true)), by simp only [Pool.step, Pool.act, htask], pool, held, place,
        hI.stay (t := .holds number page (some true)) (by simp) (by simp) (by simp) (by simp) (by simp) hcarries
          (fun d => ?_) (fun d => ?_)⟩ <;>
      simp [htask, weight]
  | @free k number page isNet htask =>
      have hcarries := hI.task k
      rw [htask] at hcarries
      obtain ⟨hlinked, hlen, hnumber⟩ := hcarries
      have hne : held k ≠ [] := by
        rintro hnil
        rw [hnil] at hlen
        exact absurd hlen (Nat.ne_of_lt hnumber)
      cases page with
      | none => exact absurd ((Linked.eq_none hlinked).1 rfl) hne
      | some page =>
          obtain ⟨front, last, hheld, htail⟩ := hI.tail hlinked
          by_cases hlimit : (limit : Int) < s.drbdPpVacant
          · refine ⟨s.setTask k (.freeing (some page) 0 isNet),
              by simp only [Pool.step, Pool.act, htask, hlimit, if_true],
              pool, held, place, hI.retask ⟨hlinked, hne⟩ fun b => ?_⟩
            rw [htask]
            simp [weight, hlen]
          · refine ⟨s.setTask k (.linking page last (held k).length (some isNet)),
              by simp only [Pool.step, Pool.act, htask, hlimit, htail, if_false, Option.map_some], pool, held, place,
              hI.retask ⟨hlinked, rfl, front, hheld⟩ fun b => ?_⟩
            rw [htask]
            simp [weight, hlen]
  | @put k page i isNet htask =>
      cases page with
      | none =>
          have hcarries := hI.task k
          rw [htask] at hcarries
          exact absurd ((Linked.eq_none hcarries.1).1 rfl) hcarries.2
      | some page =>
          have hput := hI.put htask
          cases hnext : s.priv page with
          | none =>
              simp only [hnext] at hput
              exact ⟨_, by simp only [Pool.step, Pool.act, htask, hnext], hput⟩
          | some tmp =>
              simp only [hnext] at hput
              exact ⟨_, by simp only [Pool.step, Pool.act, htask, hnext], hput⟩
  | @sub k i isNet htask =>
      have hcarries := hI.task k
      rw [htask] at hcarries
      refine ⟨(s.addInUse (device k) isNet (-i)).setTask k .idle, by simp only [Pool.step, Pool.act, htask], pool, held,
        place, hI.recount hcarries fun b => ?_⟩
      rw [htask]
      by_cases hb : isNet = b <;> simp [weight, hb]

/-! ## Whole runs -/

/-- The pool that `drbd_create_mempools` fills. -/
theorem PoolInv.create (device : Fin n → Nat) (priv : Page → Option Page) {pages : List Page} (hpages : pages.Nodup) :
    PoolInv device (Pool.create priv pages) pages (fun _ => []) (fun p => if p ∈ pages then .pool else .system) := by
  have hheads : ∀ pages : List Page, (Pool.create (n := n) priv pages).inUse = pages ∧
      (Pool.create (n := n) priv pages).drbdPpVacant = pages.length ∧
      (Pool.create (n := n) priv pages).task = (fun _ => .idle) ∧
      (Pool.create (n := n) priv pages).ppInUse = (fun _ => 0) ∧
      (Pool.create (n := n) priv pages).ppInUseByNet = fun _ => 0 := by
    intro pages
    induction pages with
    | nil => exact ⟨rfl, rfl, rfl, rfl, rfl⟩
    | cons p pages ih =>
        obtain ⟨h1, h2, h3, h4, h5⟩ := ih
        refine ⟨congrArg (p :: ·) h1, ?_, h3, h4, h5⟩
        change (Pool.create (n := n) priv pages).drbdPpVacant + 1 = _
        rw [h2, List.length_cons]
        push_cast
        rfl
  have hlinked : Linked (Pool.create (n := n) priv pages).priv (Pool.create (n := n) priv pages).drbdPpPool pages := by
    clear hheads
    induction pages with
    | nil => rfl
    | cons p pages ih =>
        obtain ⟨hp, hpages⟩ := List.nodup_cons.1 hpages
        exact (ih hpages).push hp
  obtain ⟨hinUse, hvacant, htask, hppInUse, hppInUseByNet⟩ := hheads pages
  refine ⟨hlinked, hvacant, ⟨hpages, fun p => ?_⟩, fun k => ⟨List.nodup_nil, fun p => ?_⟩,
    ⟨by rwa [hinUse], fun p => ?_⟩, fun k => ?_, fun d => ?_, fun d => ?_⟩
  · by_cases hp : p ∈ pages <;> simp [hp]
  · by_cases hp : p ∈ pages <;> simp [hp]
  · rw [hinUse]
    by_cases hp : p ∈ pages <;> simp [hp]
  · rw [htask]
    rfl
  · rw [hppInUse, htask]
    simp [weight]
  · rw [hppInUseByNet, htask]
    simp [weight]

/-- What `pp_in_use` or `pp_in_use_by_net` should say of an allocation. -/
def Task.counted (isNet : Bool) : Task → Int
  | .holds number _ (some b) => if b = isNet then number else 0
  | _ => 0

/-- An allocation that is not within one of the functions. -/
def Task.AtRest : Task → Prop
  | .idle | .holds _ _ (some _) => True
  | _ => False

/-- The pool and the chains of the allocations have every page that is in use, and each once. -/
structure Conserved (device : Fin n → Nat) (s : Pool n) (pool : List Page) (held : Fin n → List Page) : Prop where
  linked : Linked s.priv s.drbdPpPool pool
  vacant : s.drbdPpVacant = pool.length
  once : (pool ++ (List.finRange n).flatMap held).Nodup
  all : (pool ++ (List.finRange n).flatMap held).Perm s.inUse
  /-- a chain that is handed out has the length that was asked for -/
  handedOut : ∀ k number page isNet, s.task k = .holds number page isNet →
    Linked s.priv page (held k) ∧ (held k).length = number
  /-- an allocation that has failed, or has been freed, has no page -/
  idle : ∀ k, s.task k = .idle → held k = []
  counted : (∀ k, (s.task k).AtRest) → ∀ d,
    s.ppInUse d = (∑ k, if device k = d then (s.task k).counted false else 0) ∧
      s.ppInUseByNet d = ∑ k, if device k = d then (s.task k).counted true else 0

theorem PoolInv.conserved (hI : PoolInv device s pool held place) : Conserved device s pool held := by
  have hdisjoint : List.Disjoint pool ((List.finRange n).flatMap held) := by
    intro p hp hp'
    obtain ⟨k, _, hk⟩ := List.mem_flatMap.1 hp'
    have := (hI.inPool.2 p).1 hp
    rw [((hI.isHeld k).2 p).1 hk] at this
    cases this
  have honce : (pool ++ (List.finRange n).flatMap held).Nodup := by
    refine hI.inPool.1.append (List.nodup_flatMap.2 ⟨fun k _ => (hI.isHeld k).1, ?_⟩) hdisjoint
    refine (List.nodup_finRange n).imp fun {j k} hjk p hj hk => hjk ?_
    have := ((hI.isHeld j).2 p).1 hj
    rw [((hI.isHeld k).2 p).1 hk] at this
    cases this
    rfl
  have hrest : (∀ k, (s.task k).AtRest) → ∀ b k, (s.task k).counted b = weight b (s.task k) (held k) := by
    intro hrest b k
    have hk := hrest k
    cases htask : s.task k with
    | holds number page isNet => cases isNet <;> rfl
    | idle => rfl
    | _ =>
        rw [htask] at hk
        exact absurd hk id
  refine ⟨hI.linked, hI.vacant, honce, (List.perm_ext_iff_of_nodup honce hI.inUse.1).2 fun p => ?_,
    fun k number page isNet htask => ?_, fun k htask => ?_, fun hall d => ?_⟩
  · rw [hI.inUse.2 p, List.mem_append, hI.inPool.2 p, List.mem_flatMap]
    constructor
    · rintro (hp | ⟨k, _, hk⟩)
      · simp [hp]
      · simp [((hI.isHeld k).2 p).1 hk]
    · intro hp
      cases hplace : place p with
      | system => exact absurd hplace hp
      | pool => exact .inl rfl
      | held k => exact .inr ⟨k, List.mem_finRange k, ((hI.isHeld k).2 p).2 hplace⟩
  · have hcarries := hI.task k
    rw [htask] at hcarries
    exact ⟨hcarries.1, hcarries.2.1⟩
  · have hcarries := hI.task k
    rwa [htask] at hcarries
  · simp only [hrest hall]
    exact ⟨hI.ppInUse d, hI.ppInUseByNet d⟩

/-- However the steps of the allocations and of the frees are interleaved, and whichever pages the system gives or
refuses, no page is lost or shared, and no step gets stuck. -/
theorem page_pool_conserved (limit : Nat) (device : Fin n → Nat) (priv : Page → Option Page) {pages : List Page}
    (hpages : pages.Nodup) {evs : List (PoolEvent n)}
    (h : run (Pool.step limit device) (.create priv pages) evs = some s) :
    (∃ pool held, Conserved device s pool held) ∧ ∀ ev, (s.step limit device ev).isSome ↔ s.Enabled ev := by
  have hI : ∃ pool held place, PoolInv device s pool held place := by
    refine run_preserves (I := fun s => ∃ pool held place, PoolInv device s pool held place) ?_
      ⟨_, _, _, PoolInv.create device priv hpages⟩ h
    rintro s ev s' ⟨pool, held, place, hI⟩ hstep
    obtain ⟨t, ht, hinv⟩ := pool_step hI (enabled_of_step hstep)
    rw [hstep, Option.some_inj] at ht
    rwa [ht]
  obtain ⟨pool, held, place, hI⟩ := hI
  refine ⟨⟨pool, held, hI.conserved⟩, fun ev => ⟨fun hsome => ?_, fun he => ?_⟩⟩
  · obtain ⟨s', hs'⟩ := Option.isSome_iff_exists.1 hsome
    exact enabled_of_step hs'
  · obtain ⟨s', hs', _⟩ := pool_step hI he
    rw [hs', Option.isSome_some]

/-- One allocation takes two pages of the pool; another gets only one page of the system, and gives it back. -/
def twoAllocations : List (PoolEvent 2) :=
  [.act 0 (.alloc 2), .act 1 (.alloc 2), .act 0 .test, .act 0 .del, .act 1 .test, .act 1 (.page 7),
    .scribble 9 (some 1),
    .act 0 .count, .act 1 .noPage, .act 0 .free, .act 1 .link, .act 0 .link, .act 0 .sub]

theorem page_pool_conserved_two : ∃ s,
    run (Pool.step 32 fun _ => 0) (.create (fun _ => none) [1, 2, 3]) twoAllocations =
    some s ∧ ∃ pool held, Conserved (fun _ => 0) s pool held := by
  have hsome : (run (Pool.step 32 fun _ => 0) (.create (fun _ => none) [1, 2, 3]) twoAllocations).isSome := by
    decide
  obtain ⟨s, hs⟩ := Option.isSome_iff_exists.1 hsome
  exact ⟨s, hs, (page_pool_conserved 32 (fun _ => 0) (fun _ => none) (by decide) hs).1⟩

end Drbd.PagePool
