import Mathlib.Data.Option.Basic

/-!
# Loops that may fault

A step that touches memory out of bounds, or divides by zero, gives no state. When each step's check
looks at the loop's index only, the loop gets through exactly when every index passes.
-/

namespace Drbd.Lib

variable {α β : Type} {f : α → β → Option α} {I : α → Prop} {P : β → Prop}

/-- `P` is the check, `I` what the steps keep. -/
theorem foldlM_checked (hyes : ∀ a b, I a → P b → ∃ a', f a b = some a' ∧ I a')
    (hno : ∀ a b, I a → ¬ P b → f a b = none) (l : List β) {a : α} (ha : I a) :
    ((∀ b ∈ l, P b) ∧ ∃ a', l.foldlM f a = some a' ∧ I a') ∨ ((∃ b ∈ l, ¬ P b) ∧ l.foldlM f a = none) := by
  induction l generalizing a with
  | nil => exact .inl ⟨fun _ hb => absurd hb List.not_mem_nil, a, rfl, ha⟩
  | cons b l ih =>
      rw [List.foldlM_cons, Option.bind_eq_bind, List.forall_mem_cons]
      by_cases hb : P b
      · obtain ⟨t, ht, hI⟩ := hyes a b ha hb
        rw [ht, Option.bind_some]
        rcases ih hI with ⟨hall, hsome⟩ | ⟨⟨x, hx, hbad⟩, hnone⟩
        · exact .inl ⟨⟨hb, hall⟩, hsome⟩
        · exact .inr ⟨⟨x, List.mem_cons_of_mem b hx, hbad⟩, hnone⟩
      · rw [hno a b ha hb, Option.bind_none]
        exact .inr ⟨⟨b, List.mem_cons_self, hb⟩, rfl⟩

/-- Steps that all pass. -/
theorem foldlM_total (hstep : ∀ a b, I a → ∃ a', f a b = some a' ∧ I a') (l : List β) {a : α} (ha : I a) :
    ∃ a', l.foldlM f a = some a' ∧ I a' := by
  have h := foldlM_checked (fun a b ha (_ : True) => hstep a b ha) (fun _ _ _ hn => absurd trivial hn) l ha
  rcases h with ⟨_, hsome⟩ | ⟨⟨_, _, hbad⟩, _⟩
  · exact hsome
  · exact absurd trivial hbad

end Drbd.Lib
