import Mathlib.Data.List.Basic
import Mathlib.Tactic.Common

/-!
# Augmented search trees

A binary tree whose nodes carry a value computed from the node and from what its children carry. Who
rebalances it keeps the in-order sequence, and recomputes the value wherever a subtree has changed.
-/

namespace Drbd.Lib

variable {α β : Type}

inductive Tree (α β : Type)
  | nil
  | node (left : Tree α β) (a : α) (b : β) (right : Tree α β)
deriving DecidableEq, Repr

namespace Tree

def inorder : Tree α β → List α
  | nil => []
  | node left a _ right => left.inorder ++ a :: right.inorder

/-- What the root carries. -/
def summary : Tree α β → Option β
  | nil => none
  | node _ _ b _ => some b

inductive Subtree : Tree α β → Tree α β → Prop
  | refl (t : Tree α β) : Subtree t t
  | left {s l r : Tree α β} {a : α} {b : β} : Subtree s l → Subtree s (node l a b r)
  | right {s l r : Tree α β} {a : α} {b : β} : Subtree s r → Subtree s (node l a b r)

/-! ## Descents

A cut tells for each node on which side of it the descent goes on.
-/

/-- The leaf, hung where the descent ends; nothing if it meets a node. -/
def link (cut : α → Ordering) (leaf : Tree α β) : Tree α β → Option (Tree α β)
  | nil => some leaf
  | node left a b right =>
      match cut a with
      | .lt => (link cut leaf left).map fun left => node left a b right
      | .gt => (link cut leaf right).map fun right => node left a b right
      | .eq => none

/-- Does the descent meet a node? -/
def contains (cut : α → Ordering) : Tree α β → Bool
  | nil => false
  | node left a _ right =>
      match cut a with
      | .lt => left.contains cut
      | .gt => right.contains cut
      | .eq => true

/-- A cut of an order: what is after the target stays after it, what is before it before. -/
structure IsCut (r : α → α → Prop) (cut : α → Ordering) : Prop where
  lt : ∀ {x y}, r x y → cut x ≠ .gt → cut y = .lt
  gt : ∀ {x y}, r x y → cut y ≠ .lt → cut x = .gt

def Ordered (r : α → α → Prop) (t : Tree α β) : Prop := t.inorder.Pairwise r

variable {r : α → α → Prop} {cut : α → Ordering} {leaf t t' left right : Tree α β} {a : α} {b : β}

theorem mem_inorder_node {x : α} :
    x ∈ (node left a b right).inorder ↔ x ∈ left.inorder ∨ x = a ∨ x ∈ right.inorder := by
  simp only [inorder, List.mem_append, List.mem_cons]

theorem Ordered.node (h : Ordered r (node left a b right)) : Ordered r left ∧ Ordered r right ∧
    (∀ x ∈ left.inorder, r x a) ∧ (∀ x ∈ right.inorder, r a x) := by
  obtain ⟨hl, har, hlr⟩ := List.pairwise_append.1 h
  obtain ⟨ha, hr⟩ := List.pairwise_cons.1 har
  exact ⟨hl, hr, fun x hx => hlr x hx a List.mem_cons_self, ha⟩

/-- The nodes before and after the place where the leaf is hung. -/
theorem link_inorder (hcut : IsCut r cut) (ht : Ordered r t) (h : link cut leaf t = some t') :
    ∃ before after, t.inorder = before ++ after ∧ t'.inorder = before ++ leaf.inorder ++ after ∧
      (∀ x ∈ before, cut x = .gt) ∧ ∀ x ∈ after, cut x = .lt := by
  induction t generalizing t' with
  | nil =>
      cases h
      exact ⟨[], [], rfl, by simp, by simp, by simp⟩
  | node left a b right ihl ihr =>
      obtain ⟨hl, hr, hla, har⟩ := ht.node
      unfold link at h
      split at h
      · rename_i ha
        obtain ⟨left', hleft, rfl⟩ := Option.map_eq_some_iff.1 h
        obtain ⟨before, after, h1, h2, hbefore, hafter⟩ := ihl hl hleft
        refine ⟨before, after ++ a :: right.inorder, by simp [inorder, h1], by simp [inorder, h2], hbefore, ?_⟩
        intro x hx
        rcases List.mem_append.1 hx with hx | hx
        · exact hafter x hx
        · rcases List.mem_cons.1 hx with rfl | hx
          · exact ha
          · exact hcut.lt (har x hx) (by rw [ha]; decide)
      · rename_i ha
        obtain ⟨right', hright, rfl⟩ := Option.map_eq_some_iff.1 h
        obtain ⟨before, after, h1, h2, hbefore, hafter⟩ := ihr hr hright
        refine ⟨left.inorder ++ a :: before, after, by simp [inorder, h1], by simp [inorder, h2], ?_, hafter⟩
        intro x hx
        rcases List.mem_append.1 hx with hx | hx
        · exact hcut.gt (hla x hx) (by rw [ha]; decide)
        · rcases List.mem_cons.1 hx with rfl | hx
          · exact ha
          · exact hbefore x hx
      · cases h

theorem contains_iff (hcut : IsCut r cut) (ht : Ordered r t) :
    t.contains cut = true ↔ ∃ x ∈ t.inorder, cut x = .eq := by
  induction t with
  | nil => simp [contains, inorder]
  | node left a b right ihl ihr =>
      obtain ⟨hl, hr, hla, har⟩ := ht.node
      simp only [mem_inorder_node, contains]
      split
      · rename_i ha
        rw [ihl hl]
        constructor
        · rintro ⟨x, hx, hc⟩
          exact ⟨x, .inl hx, hc⟩
        · rintro ⟨x, hx | rfl | hx, hc⟩
          · exact ⟨x, hx, hc⟩
          · rw [ha] at hc
            cases hc
          · rw [hcut.lt (har x hx) (by rw [ha]; decide)] at hc
            cases hc
      · rename_i ha
        rw [ihr hr]
        constructor
        · rintro ⟨x, hx, hc⟩
          exact ⟨x, .inr (.inr hx), hc⟩
        · rintro ⟨x, hx | rfl | hx, hc⟩
          · rw [hcut.gt (hla x hx) (by rw [ha]; decide)] at hc
            cases hc
          · rw [ha] at hc
            cases hc
          · exact ⟨x, hx, hc⟩
      · rename_i ha
        exact ⟨fun _ => ⟨a, .inr (.inl rfl), ha⟩, fun _ => rfl⟩

/-- Both descents take the same way. -/
theorem link_eq_none (leaf t : Tree α β) : link cut leaf t = none ↔ t.contains cut = true := by
  induction t with
  | nil => simp [link, contains]
  | node left a b right ihl ihr =>
      simp only [link, contains]
      split
      · rw [Option.map_eq_none_iff, ihl]
      · rw [Option.map_eq_none_iff, ihr]
      · exact ⟨fun _ => rfl, fun _ => rfl⟩

/-! ## What the nodes carry -/

variable {f : Option β → α → Option β → β} {old : Tree α β}

/-- Every node carries what `f` makes of it and its children. -/
def Augmented (f : Option β → α → Option β → β) : Tree α β → Prop
  | nil => True
  | node left a b right => left.Augmented f ∧ right.Augmented f ∧ b = f left.summary a right.summary

/-- A tree made of subtrees of the old one and of nodes that were recomputed after their children. -/
inductive Reaugmented (f : Option β → α → Option β → β) (old : Tree α β) : Tree α β → Prop
  | nil : Reaugmented f old nil
  | kept {t : Tree α β} : Subtree t old → Reaugmented f old t
  | called {left right : Tree α β} {a : α} : Reaugmented f old left → Reaugmented f old right →
      Reaugmented f old (node left a (f left.summary a right.summary) right)

theorem Subtree.augmented (h : Subtree t old) (hold : Augmented f old) : Augmented f t := by
  induction h with
  | refl => exact hold
  | left _ ih => exact ih hold.1
  | right _ ih => exact ih hold.2.1

theorem Reaugmented.augmented (h : Reaugmented f old t) (hold : Augmented f old) : Augmented f t := by
  induction h with
  | nil => trivial
  | kept h => exact h.augmented hold
  | called _ _ ihl ihr => exact ⟨ihl, ihr, rfl⟩

/-- The same tree, all of it recomputed. -/
def reaugment (f : Option β → α → Option β → β) : Tree α β → Tree α β
  | nil => nil
  | node left a _ right =>
      node (left.reaugment f) a (f (left.reaugment f).summary a (right.reaugment f).summary) (right.reaugment f)

theorem reaugment_inorder (t : Tree α β) : (t.reaugment f).inorder = t.inorder := by
  induction t with
  | nil => rfl
  | node left a b right ihl ihr => simp only [reaugment, inorder, ihl, ihr]

theorem reaugment_reaugmented (t : Tree α β) : Reaugmented f old (t.reaugment f) := by
  induction t with
  | nil => exact .nil
  | node left a b right ihl ihr => exact .called ihl ihr

end Tree

end Drbd.Lib
