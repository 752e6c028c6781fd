import Mathlib.Algebra.Ring.Int.Defs
import Mathlib.Algebra.Ring.Nat
import Mathlib.Data.List.Basic
import Mathlib.Data.List.Forall2
import Mathlib.Data.List.Pairwise
import Mathlib.Data.Nat.Count

/-!
# Sweeps over a changing set

A sweep goes once through the numbers and takes intervals out of a set that others change meanwhile.
In every round it looks for the next element and then tests it and its neighbours; search and tests
need not see the same set.
-/

namespace Drbd.Lib

section

variable {ρ : Type} (found tested : ρ → Nat → Bool) (P : Nat → Nat → Prop)

/-- From one position to another, with the rounds it took and the intervals taken. -/
inductive Sweep : Nat → List ρ → List (Nat × Nat) → Nat → Prop
  | stop {lo rounds} : Sweep lo rounds [] lo
  | skip {lo mid hi r rounds taken} : lo ≤ mid →
      (∀ x, lo ≤ x → x < mid → found r x = false ∨ tested r x = false) →
      Sweep mid rounds taken hi → Sweep lo (r :: rounds) taken hi
  | take {lo first last hi r rounds taken} : lo ≤ first → first ≤ last →
      (∀ x, lo ≤ x → x < first → found r x = false) →
      (∀ x, first ≤ x → x ≤ last → tested r x = true) → P first last →
      Sweep (last + 1) rounds taken hi → Sweep lo (r :: rounds) ((first, last) :: taken) hi

end

variable {ρ : Type} {found tested : ρ → Nat → Bool} {P : Nat → Nat → Prop} {lo mid hi x : Nat}
  {rounds rounds' : List ρ} {taken taken' : List (Nat × Nat)}

theorem Sweep.rest (h : Sweep found tested P lo rounds taken mid)
    (h' : Sweep found tested P mid rounds' taken' hi) :
    Sweep found tested P lo (rounds ++ rounds') (taken ++ taken') hi := by
  induction h with
  | @stop lo rounds =>
      induction rounds with
      | nil => exact h'
      | cons r rounds ih => exact .skip (le_refl _) (fun x h1 h2 => by omega) ih
  | skip hle hno _ ih => exact .skip hle hno (ih h')
  | take hlo hle hno hset hp _ ih => exact .take hlo hle hno hset hp (ih h')

theorem Sweep.le (h : Sweep found tested P lo rounds taken hi) : lo ≤ hi := by
  induction h with
  | stop => exact le_refl _
  | skip hle _ _ ih => omega
  | take hlo hle _ _ _ _ ih => omega

theorem Sweep.inside (h : Sweep found tested P lo rounds taken hi) :
    ∀ i ∈ taken, lo ≤ i.1 ∧ i.1 ≤ i.2 ∧ i.2 < hi ∧ P i.1 i.2 := by
  induction h with
  | stop => exact fun _ h => nomatch h
  | skip hle _ _ ih =>
      intro i hi
      have := ih i hi
      exact ⟨by omega, this.2⟩
  | take hlo hle _ _ hp hrest ih =>
      intro i hi
      rcases List.mem_cons.1 hi with rfl | hi
      · exact ⟨hlo, hle, hrest.le, hp⟩
      · have := ih i hi
        exact ⟨by omega, this.2⟩

/-- The intervals come one after the other. -/
theorem Sweep.ordered (h : Sweep found tested P lo rounds taken hi) :
    taken.Pairwise fun i j => i.2 < j.1 := by
  induction h with
  | stop => exact .nil
  | skip _ _ _ ih => exact ih
  | take _ _ _ _ _ hrest ih => exact .cons (fun j hj => (hrest.inside j hj).1) ih

/-- Every interval belongs to a round of its own, whose tests have seen all its elements. -/
theorem Sweep.built (h : Sweep found tested P lo rounds taken hi) :
    ∃ built, built.Sublist rounds ∧
      List.Forall₂ (fun (i : Nat × Nat) r => ∀ x, i.1 ≤ x → x ≤ i.2 → tested r x = true) taken built := by
  induction h with
  | stop => exact ⟨[], List.nil_sublist _, .nil⟩
  | skip _ _ _ ih =>
      obtain ⟨built, hsub, hall⟩ := ih
      exact ⟨built, hsub.cons _, hall⟩
  | @take _ _ _ _ r _ _ _ _ _ hset _ _ ih =>
      obtain ⟨built, hsub, hall⟩ := ih
      exact ⟨r :: built, hsub.cons_cons r, .cons hset hall⟩

/-- What every search and every test sees is taken. -/
theorem Sweep.covers (h : Sweep found tested P lo rounds taken hi) (hlo : lo ≤ x) (hhi : x < hi)
    (hset : ∀ r ∈ rounds, found r x = true ∧ tested r x = true) : ∃ i ∈ taken, i.1 ≤ x ∧ x ≤ i.2 := by
  induction h with
  | stop => omega
  | @skip _ mid _ r _ _ _ hno _ ih =>
      have hr := hset r List.mem_cons_self
      have hmid : mid ≤ x := by
        by_contra hlt
        rcases hno x hlo (by omega) with hclear | hclear
        · rw [hr.1] at hclear
          cases hclear
        · rw [hr.2] at hclear
          cases hclear
      exact ih hmid hhi fun r hr => hset r (List.mem_cons_of_mem _ hr)
  | @take _ first last _ r _ _ _ _ hno _ _ _ ih =>
      have hfirst : first ≤ x := by
        by_contra hlt
        have hclear := hno x hlo (by omega)
        rw [(hset r List.mem_cons_self).1] at hclear
        cases hclear
      by_cases hlast : x ≤ last
      · exact ⟨(first, last), List.mem_cons_self, hfirst, hlast⟩
      · obtain ⟨i, hi, hx⟩ := ih (by omega) hhi fun r hr => hset r (List.mem_cons_of_mem _ hr)
        exact ⟨i, List.mem_cons_of_mem _ hi, hx⟩

/-! ## Counting -/

/-- The number of elements taken. -/
def total (taken : List (Nat × Nat)) : Nat := (taken.map fun i => i.2 + 1 - i.1).sum

theorem count_add_run {p : Nat → Bool} {first last : Nat} (hle : first ≤ last)
    (hset : ∀ x, first ≤ x → x ≤ last → p x = true) :
    Nat.count (fun x => p x) (last + 1) = Nat.count (fun x => p x) first + (last + 1 - first) := by
  induction last, hle using Nat.le_induction with
  | base => rw [Nat.count_succ, if_pos (hset first (le_refl _) (le_refl _)), Nat.add_sub_cancel_left]
  | succ last hle ih =>
      rw [Nat.count_succ, if_pos (hset _ (by omega) (le_refl _)), ih fun x h1 h2 => hset x h1 (by omega)]
      omega

/-- All that is taken was in the set `s` to begin with, if nothing comes into it. -/
theorem Sweep.total_le {s : Nat → Bool} (h : Sweep found tested P lo rounds taken hi)
    (hsub : ∀ r ∈ rounds, ∀ x, tested r x = true → s x = true) :
    Nat.count (fun x => s x) lo + total taken ≤ Nat.count (fun x => s x) hi := by
  induction h with
  | stop => exact le_refl _
  | skip hle _ _ ih =>
      have hmono := Nat.count_monotone (fun x => s x = true) hle
      have := ih fun r hr => hsub r (List.mem_cons_of_mem _ hr)
      omega
  | @take lo first last _ r _ taken hlo hle _ hset _ _ ih =>
      have hmono := Nat.count_monotone (fun x => s x = true) hlo
      have hrun := count_add_run hle fun x h1 h2 => hsub r List.mem_cons_self x (hset x h1 h2)
      have := ih fun r hr => hsub r (List.mem_cons_of_mem _ hr)
      have htotal : total ((first, last) :: taken) = last + 1 - first + total taken := rfl
      omega

/-- A sweep that has taken as many elements as there were, has taken all that were there throughout. -/
theorem Sweep.covers_of_total {s : Nat → Bool} {n : Nat} (h : Sweep found tested P 0 rounds taken hi)
    (hsub : ∀ r ∈ rounds, ∀ x, tested r x = true → s x = true)
    (htotal : Nat.count (fun x => s x) n ≤ total taken) (hx : x < n) (hs : s x = true)
    (hset : ∀ r ∈ rounds, found r x = true ∧ tested r x = true) : ∃ i ∈ taken, i.1 ≤ x ∧ x ≤ i.2 := by
  refine h.covers (Nat.zero_le x) ?_ hset
  by_contra hle
  have hcount := h.total_le hsub
  have hmono := Nat.count_monotone (fun x => s x = true) (Nat.le_of_not_lt hle)
  have hmore : Nat.count (fun x => s x) x < Nat.count (fun x => s x) n := Nat.count_strict_mono hs hx
  omega

end Drbd.Lib
