import Mathlib.Data.List.Nodup
import Mathlib.Logic.Function.Basic
import Mathlib.Tactic.Common

/-!
# Chains through a link field

Nodes that are linked by a field of their own. A stretch of a chain is described by the list of its nodes; writing
the field of a node that is not on it leaves it as it was.
-/

namespace Drbd.Lib

variable {α : Type} {next : α → Option α} {h t u v : Option α} {l m : List α} {a : α}

/-- From `h` on, the links lead through the nodes of the list, to `t`. -/
def Segment (next : α → Option α) : Option α → List α → Option α → Prop
  | h, [], t => h = t
  | h, a :: l, t => h = some a ∧ Segment next (next a) l t

/-- A chain ends with no link. -/
abbrev Linked (next : α → Option α) (h : Option α) (l : List α) : Prop := Segment next h l none

theorem segment_append : Segment next h (l ++ m) t ↔ ∃ u, Segment next h l u ∧ Segment next u m t := by
  induction l generalizing h with
  | nil => exact ⟨fun hm => ⟨h, rfl, hm⟩, fun ⟨_, hu, hm⟩ => hu ▸ hm⟩
  | cons a l ih =>
      constructor
      · rintro ⟨hh, hrest⟩
        obtain ⟨u, hl, hm⟩ := ih.1 hrest
        exact ⟨u, ⟨hh, hl⟩, hm⟩
      · rintro ⟨u, ⟨hh, hl⟩, hm⟩
        exact ⟨hh, ih.2 ⟨u, hl, hm⟩⟩

/-- Only the fields of its own nodes matter. -/
theorem segment_congr {next' : α → Option α} (heq : ∀ a ∈ l, next a = next' a) :
    Segment next h l t ↔ Segment next' h l t := by
  induction l generalizing h with
  | nil => exact Iff.rfl
  | cons a l ih =>
      unfold Segment
      rw [heq a List.mem_cons_self, ih fun b hb => heq b (List.mem_cons_of_mem a hb)]

theorem Segment.head (hs : Segment next h (a :: l) t) : h = some a := hs.1

theorem Segment.tail (hs : Segment next h (a :: l) t) : Segment next (next a) l t := hs.2

theorem Linked.eq_none (hs : Linked next h l) : h = none ↔ l = [] := by
  cases l with
  | nil => exact ⟨fun _ => rfl, fun _ => hs⟩
  | cons a l =>
      rw [hs.head]
      exact ⟨nofun, nofun⟩

variable [DecidableEq α]

/-- A node that is not on the stretch may be linked to anything. -/
theorem segment_update (ha : a ∉ l) : Segment (Function.update next a v) h l t ↔ Segment next h l t := by
  refine segment_congr fun b hb => ?_
  have hne : b ≠ a := by
    rintro rfl
    exact ha hb
  exact Function.update_of_ne hne v next

/-- The last node of a stretch is linked to something else. -/
theorem Segment.redirect (hs : Segment next h (l ++ [a]) t) (ha : a ∉ l) :
    Segment (Function.update next a v) h (l ++ [a]) v := by
  obtain ⟨u, hl, hu, _⟩ := segment_append.1 hs
  refine segment_append.2 ⟨u, (segment_update ha).2 hl, hu, ?_⟩
  unfold Segment
  rw [Function.update_self]

/-- A node in front. -/
theorem Segment.push (hs : Segment next h l t) (ha : a ∉ l) :
    Segment (Function.update next a h) (some a) (a :: l) t := by
  refine ⟨rfl, ?_⟩
  rw [Function.update_self]
  exact (segment_update ha).2 hs

end Drbd.Lib
