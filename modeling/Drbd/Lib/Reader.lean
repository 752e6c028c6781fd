import Mathlib.Data.List.Basic
import Mathlib.Tactic.Common

/-!
# Readers of a stream

A reader takes elements off the front of a list or fails. How much it takes adds up along a sequence of
readers, and is determined by what is left.
-/

namespace Drbd.Lib

/-- A computation that reads a stream of `β`. -/
abbrev Reader (β : Type) := StateT (List β) Option

variable {α β γ : Type} {s s' s'' : List β} {m n : Nat}

namespace Reader

/-- The next `n` elements, all of them or none. -/
def take (n : Nat) : Reader β (List β) := fun s =>
  if n ≤ s.length then some (s.take n, s.drop n) else none

/-- The stream `s'` is `s` without its first `n` elements. -/
structure Took (s s' : List β) (n : Nat) : Prop where
  le : n ≤ s.length
  rest : s' = s.drop n

theorem Took.refl (s : List β) : Took s s 0 := ⟨Nat.zero_le _, rfl⟩

theorem Took.length (h : Took s s' n) : s'.length + n = s.length := by
  have := h.le
  rw [h.rest, List.length_drop]
  omega

theorem Took.trans (h : Took s s' m) (h' : Took s' s'' n) : Took s s'' (m + n) := by
  have := h.length
  have := h'.le
  refine ⟨by omega, ?_⟩
  rw [h'.rest, h.rest, List.drop_drop]

theorem Took.unique (h : Took s s' m) (h' : Took s s' n) : m = n := by
  have := h.length
  have := h'.length
  omega

/-- What was taken after the first `m` elements. -/
theorem Took.iff_right (h : Took s s' m) (h' : Took s' s'' n) {k : Nat} : Took s s'' k ↔ m + n = k :=
  ⟨fun hk => (h.trans h').unique hk, fun hk => hk ▸ h.trans h'⟩

theorem take_eq_some {xs : List β} (h : take n s = some (xs, s')) : Took s s' n ∧ xs = s.take n := by
  unfold take at h
  split at h
  · rename_i hle
    cases h
    exact ⟨⟨hle, rfl⟩, rfl⟩
  · cases h

theorem bind_eq_some {f : Reader β α} {g : α → Reader β γ} {c : γ}
    (h : (f >>= g) s = some (c, s'')) : ∃ a s', f s = some (a, s') ∧ g a s' = some (c, s'') := by
  obtain ⟨⟨a, s'⟩, hf, hg⟩ := Option.bind_eq_some_iff.1 h
  exact ⟨a, s', hf, hg⟩

theorem pure_eq_some {a b : α} (h : (pure a : Reader β α) s = some (b, s')) : a = b ∧ s = s' := by
  cases h
  exact ⟨rfl, rfl⟩

end Reader

end Drbd.Lib
