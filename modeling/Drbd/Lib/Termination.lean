import Mathlib.Data.Finset.Card
import Mathlib.Data.Nat.Find
import Mathlib.Logic.Relation

/-!
# Chains that end and sequences that settle
-/

namespace Drbd.Lib

open Relation

variable {α : Type}

/-! ## Acyclic relations -/

/-- Adding an edge from `m` to `x` closes no cycle if there is no way back. -/
theorem acyclic_of_insert {r r' : α → α → Prop} {m x : α} (h : ∀ a, ¬ TransGen r a a)
    (hsub : ∀ a b, r' a b → r a b ∨ (a = m ∧ b = x)) (hno : ¬ ReflTransGen r x m) :
    ∀ a, ¬ TransGen r' a a := by
  have hpath : ∀ {a b}, TransGen r' a b →
      TransGen r a b ∨ (ReflTransGen r a m ∧ ReflTransGen r x b) := by
    intro a b hab
    induction hab with
    | single hab =>
        obtain hab | ⟨rfl, rfl⟩ := hsub _ _ hab
        · exact .inl (.single hab)
        · exact .inr ⟨.refl, .refl⟩
    | tail _ hbc ih =>
        obtain hbc | ⟨rfl, rfl⟩ := hsub _ _ hbc
        · obtain hab | ⟨ham, hxb⟩ := ih
          · exact .inl (hab.tail hbc)
          · exact .inr ⟨ham, hxb.tail hbc⟩
        · obtain hab | ⟨_, hxb⟩ := ih
          · exact .inr ⟨hab.to_reflTransGen, .refl⟩
          · exact absurd hxb hno
  intro a ha
  obtain haa | ⟨ham, hxa⟩ := hpath ha
  · exact h a haa
  · exact hno (hxa.trans ham)

/-- Every chain from `a` has fewer than `n` edges. -/
def EndsWithin (r : α → α → Prop) : Nat → α → Prop
  | 0, _ => False
  | n + 1, a => ∀ b, r a b → EndsWithin r n b

theorem EndsWithin.mono_rel {r r' : α → α → Prop} (h : ∀ a b, r' a b → r a b) {n : Nat} {a : α}
    (he : EndsWithin r n a) : EndsWithin r' n a := by
  induction n generalizing a with
  | zero => exact he
  | succ n ih => exact fun b hb => ih (he b (h a b hb))

/-- The chains of an acyclic relation that starts from finitely many points end. -/
theorem endsWithin_of_acyclic {r : α → α → Prop} (s : Finset α) (hs : ∀ a b, r a b → a ∈ s)
    (h : ∀ a, ¬ TransGen r a a) (a : α) : EndsWithin r (s.card + 1) a := by
  classical
  -- what is left to visit from `a` gets smaller with every edge
  have hleft : ∀ n a, (s.filter (ReflTransGen r a)).card ≤ n → EndsWithin r (n + 1) a := by
    intro n
    induction n with
    | zero =>
        intro a hn b hab
        have hmem : a ∈ s.filter (ReflTransGen r a) := Finset.mem_filter.mpr ⟨hs a b hab, .refl⟩
        rw [Nat.le_zero, Finset.card_eq_zero] at hn
        rw [hn] at hmem
        simp at hmem
    | succ n ih =>
        intro a hn b hab
        refine ih b ?_
        have hlt : (s.filter (ReflTransGen r b)).card < (s.filter (ReflTransGen r a)).card := by
          refine Finset.card_lt_card (Finset.ssubset_iff_subset_ne.mpr ⟨fun c hc => ?_, fun heq => ?_⟩)
          · rw [Finset.mem_filter] at hc ⊢
            exact ⟨hc.1, .head hab hc.2⟩
          · have hmem : a ∈ s.filter (ReflTransGen r a) := Finset.mem_filter.mpr ⟨hs a b hab, .refl⟩
            rw [← heq, Finset.mem_filter] at hmem
            exact h a (.head' hab hmem.2)
        omega
  exact hleft s.card a (Finset.card_le_card (Finset.filter_subset _ s))

/-! ## Sequences that settle -/

/-- `f` does not change from `N` on. -/
def SettledFrom (f : Nat → α) (N : Nat) : Prop := ∀ k, N ≤ k → f k = f N

theorem SettledFrom.mono {f : Nat → α} {N K : Nat} (h : SettledFrom f N) (hle : N ≤ K) : SettledFrom f K :=
  fun k hk => (h k (Nat.le_trans hle hk)).trans (h K hle).symm

/-- A sequence settles if every change makes a measure smaller. -/
theorem exists_settledFrom {f : Nat → α} {N : Nat} (m : α → Nat)
    (h : ∀ k, N ≤ k → f (k + 1) = f k ∨ m (f (k + 1)) < m (f k)) : ∃ K, N ≤ K ∧ SettledFrom f K := by
  classical
  induction hm : m (f N) using Nat.strong_induction_on generalizing N with
  | _ n ih =>
      by_cases hset : SettledFrom f N
      · exact ⟨N, Nat.le_refl N, hset⟩
      · -- the first change after `N` lowers the measure
        have hchange : ∃ k, N ≤ k ∧ f k ≠ f N := by
          unfold SettledFrom at hset
          push Not at hset
          exact hset
        obtain ⟨hk, hne⟩ := Nat.find_spec hchange
        have hbefore : ∀ j, N ≤ j → j < Nat.find hchange → f j = f N := by
          intro j hj hlt
          by_contra hj'
          exact Nat.find_min hchange hlt ⟨hj, hj'⟩
        generalize Nat.find hchange = k at hk hne hbefore
        have hkpos : N < k := Nat.lt_of_le_of_ne hk (fun he => hne (by rw [he]))
        obtain ⟨j, rfl⟩ : ∃ j, k = j + 1 := ⟨k - 1, by omega⟩
        have hj : f j = f N := hbefore j (by omega) (by omega)
        have hlt : m (f (j + 1)) < n := by
          obtain heq | hlt := h j (by omega)
          · exact absurd (heq.trans hj) hne
          · rw [hj, hm] at hlt
            exact hlt
        obtain ⟨K, hK, hset⟩ := ih _ hlt (fun i hi => h i (by omega)) rfl
        exact ⟨K, by omega, hset⟩

end Drbd.Lib
