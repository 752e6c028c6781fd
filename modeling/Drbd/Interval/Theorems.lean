import Drbd.Interval.Defs
import Mathlib.Data.List.Perm.Subperm
import Mathlib.Order.Bounds.Basic

/-!
# The interval tree finds every conflict

The tree is ordered by sector and address and every node carries the highest end below it, after any
sequence of changes. So the search is a search through the in-order sequence.
-/

namespace Drbd.Interval

open Lib Lib.Tree

variable {rb : Rb} {root l r : RbTree} {this here i j : DrbdInterval} {q : Range} {sector addr : Nat}

/-! ## The order -/

theorem not_before_self (i : DrbdInterval) : ¬ Before i i := by
  unfold Before
  omega

theorem direction_lt (sector addr : Nat) (i : DrbdInterval) :
    direction sector addr i = .lt ↔ sector < i.sector ∨ (sector = i.sector ∧ addr < i.addr) := by
  unfold direction
  split_ifs <;> simp <;> omega

theorem direction_gt (sector addr : Nat) (i : DrbdInterval) :
    direction sector addr i = .gt ↔ i.sector < sector ∨ (i.sector = sector ∧ i.addr < addr) := by
  unfold direction
  split_ifs <;> simp <;> omega

theorem direction_eq (sector addr : Nat) (i : DrbdInterval) :
    direction sector addr i = .eq ↔ i.sector = sector ∧ i.addr = addr := by
  unfold direction
  split_ifs <;> simp <;> omega

theorem direction_isCut (sector addr : Nat) : IsCut Before (direction sector addr) where
  lt := by
    intro x y h hx
    rw [Ne, direction_gt] at hx
    rw [direction_lt]
    unfold Before at h
    omega
  gt := by
    intro x y h hy
    rw [Ne, direction_lt] at hy
    rw [direction_gt]
    unfold Before at h
    omega

/-! ## The highest end -/

theorem stop_eq (r : Range) : r.stop = r.sector + r.size / 512 := Nat.mod_eq_of_lt r.fits

theorem sector_lt_stop (i : DrbdInterval) : i.sector < i.stop := by
  have hpos := i.pos
  have haligned := i.aligned
  rw [stop_eq]
  omega

/-- The greatest of the three, where they are there. -/
theorem updateIntervalEnd_spec (l : Option Nat) (this : DrbdInterval) (r : Option Nat) :
    (∀ e ∈ l, e ≤ updateIntervalEnd l this r) ∧ this.stop ≤ updateIntervalEnd l this r ∧
    (∀ e ∈ r, e ≤ updateIntervalEnd l this r) ∧
    (updateIntervalEnd l this r ∈ l ∨ updateIntervalEnd l this r = this.stop ∨ updateIntervalEnd l this r ∈ r) := by
  unfold updateIntervalEnd
  cases l <;> cases r <;> simp only [Option.mem_def, Option.some.injEq, reduceCtorEq, false_or, or_false] <;>
    (try split_ifs) <;> simp <;> omega

/-- The highest end of what is below a node. -/
def Highest (t : RbTree) (last : Nat) : Prop := IsGreatest {e | ∃ i ∈ t.inorder, i.stop = e} last

theorem highest_of_augmented (h : root.Augmented updateIntervalEnd) {last : Nat} (hlast : last ∈ root.summary) :
    Highest root last := by
  induction root generalizing last with
  | nil => cases hlast
  | node left here last' right ihl ihr =>
      obtain ⟨hl, hr, hlast'⟩ := h
      obtain rfl : last' = last := Option.some.inj hlast
      obtain ⟨hul, huh, hur, hmem⟩ := updateIntervalEnd_spec left.summary here right.summary
      rw [← hlast'] at hul huh hur hmem
      have hle : ∀ {t : RbTree}, (∀ last ∈ t.summary, Highest t last) → (∀ e ∈ t.summary, e ≤ last') →
          ∀ i ∈ t.inorder, i.stop ≤ last' := by
        intro t ht hu i hi
        cases t with
        | nil => cases hi
        | node l a b r => exact ((ht b rfl).2 ⟨i, hi, rfl⟩).trans (hu b rfl)
      constructor
      · rcases hmem with hm | hm | hm
        · obtain ⟨i, hi, he⟩ := (ihl hl hm).1
          exact ⟨i, mem_inorder_node.2 (.inl hi), he⟩
        · exact ⟨here, mem_inorder_node.2 (.inr (.inl rfl)), hm.symm⟩
        · obtain ⟨i, hi, he⟩ := (ihr hr hm).1
          exact ⟨i, mem_inorder_node.2 (.inr (.inr hi)), he⟩
      · rintro e ⟨i, hi, rfl⟩
        rcases mem_inorder_node.1 hi with hi | rfl | hi
        · exact hle (fun _ => ihl hl) hul i hi
        · exact huh
        · exact hle (fun _ => ihr hr) hur i hi

/-! ## The invariant -/

structure Valid (root : RbTree) : Prop where
  ordered : root.Ordered Before
  augmented : root.Augmented updateIntervalEnd

theorem valid_nil : Valid .nil := ⟨.nil, trivial⟩

theorem Valid.left {last : Nat} (h : Valid (.node l here last r)) : Valid l :=
  ⟨h.ordered.node.1, h.augmented.1⟩

theorem Valid.right {last : Nat} (h : Valid (.node l here last r)) : Valid r :=
  ⟨h.ordered.node.2.1, h.augmented.2.1⟩

theorem Valid.contains_iff (h : Valid root) : drbdContainsInterval root sector addr = true ↔
    ∃ i ∈ root.inorder, i.sector = sector ∧ i.addr = addr := by
  rw [drbdContainsInterval, Tree.contains_iff (direction_isCut sector addr) h.ordered]
  simp only [direction_eq]

/-- The result of an insertion: refused for an interval that is there, else in its place. -/
theorem Valid.insert (h : Valid root) : Valid (drbdInsertInterval rb root this).1 ∧
    ∀ i, i ∈ (drbdInsertInterval rb root this).1.inorder ↔ i ∈ root.inorder ∨
      (i = this ∧ ∀ j ∈ root.inorder, ¬ (j.sector = this.sector ∧ j.addr = this.addr)) := by
  have hcontains := @Valid.contains_iff root this.sector this.addr h
  unfold drbdContainsInterval at hcontains
  unfold drbdInsertInterval
  cases hlink : Tree.link (direction this.sector this.addr) (.node .nil this 0 .nil) root with
  | none =>
      obtain ⟨j, hj, hkey⟩ := hcontains.1 ((link_eq_none _ _).1 hlink)
      refine ⟨h, fun i => ⟨.inl, ?_⟩⟩
      rintro (hi | ⟨_, hno⟩)
      · exact hi
      · exact absurd hkey (hno j hj)
  | some linked =>
      obtain ⟨before, after, hroot, hlinked, hbefore, hafter⟩ :=
        link_inorder (direction_isCut this.sector this.addr) h.ordered hlink
      have hnew : ∀ j ∈ root.inorder, ¬ (j.sector = this.sector ∧ j.addr = this.addr) := by
        intro j hj hkey
        have hnone := (link_eq_none (.node .nil this 0 .nil) root).2 (hcontains.2 ⟨j, hj, hkey⟩)
        rw [hlink] at hnone
        cases hnone
      have hin : (rb.insert root linked).inorder = before ++ this :: after := by
        rw [rb.insert_inorder hlink, hlinked]
        simp [inorder]
      refine ⟨⟨?_, (rb.insert_called hlink).augmented h.augmented⟩, fun i => ?_⟩
      · have hpw : (before ++ after).Pairwise Before := hroot ▸ h.ordered
        obtain ⟨hb, ha, hba⟩ := List.pairwise_append.1 hpw
        unfold Tree.Ordered
        rw [hin]
        have hbt : ∀ x ∈ before, Before x this := fun x hx => (direction_gt _ _ x).1 (hbefore x hx)
        have hta : ∀ x ∈ after, Before this x := fun x hx => by
          rcases (direction_lt _ _ x).1 (hafter x hx) with hlt | ⟨heq, hlt⟩
          · exact .inl hlt
          · exact .inr ⟨heq, hlt⟩
        refine List.pairwise_append.2 ⟨hb, List.pairwise_cons.2 ⟨hta, ha⟩, fun x hx y hy => ?_⟩
        rcases List.mem_cons.1 hy with rfl | hy
        · exact hbt x hx
        · exact hba x hx y hy
      · rw [hin, hroot]
        simp only [List.mem_append, List.mem_cons]
        constructor
        · rintro (hi | rfl | hi)
          · exact .inl (.inl hi)
          · exact .inr ⟨rfl, fun j hj => hnew j (hroot ▸ List.mem_append.2 hj)⟩
          · exact .inl (.inr hi)
        · rintro ((hi | hi) | ⟨rfl, _⟩)
          · exact .inl hi
          · exact .inr (.inr hi)
          · exact .inr (.inl rfl)

theorem Valid.nodup (h : Valid root) : root.inorder.Nodup :=
  List.Pairwise.imp (fun {a b} (hab : Before a b) (he : a = b) => not_before_self b (he ▸ hab)) h.ordered

theorem Valid.remove (h : Valid root) (hthis : this ∈ root.inorder) : Valid (drbdRemoveInterval rb root this) ∧
    ∀ i, i ∈ (drbdRemoveInterval rb root this).inorder ↔ i ∈ root.inorder ∧ i ≠ this := by
  have hin : (drbdRemoveInterval rb root this).inorder = root.inorder.erase this := rb.erase_inorder hthis
  refine ⟨⟨?_, (rb.erase_called hthis).augmented h.augmented⟩, fun i => ?_⟩
  · unfold Tree.Ordered
    rw [hin]
    exact h.ordered.sublist List.erase_sublist
  · rw [hin, h.nodup.mem_erase_iff]
    exact and_comm

theorem run_valid {ops : List Op} {s : Set DrbdInterval} {root' : RbTree} (h : Valid root)
    (hs : ∀ i, i ∈ root.inorder ↔ i ∈ s) (hrun : run (step rb) root ops = some root') :
    Valid root' ∧ ∀ i, i ∈ root'.inorder ↔ i ∈ ops.foldl Op.members s := by
  induction ops generalizing root s with
  | nil =>
      cases hrun
      exact ⟨h, hs⟩
  | cons op ops ih =>
      obtain ⟨t, ht, hrest⟩ := run_cons hrun
      cases op with
      | insert this =>
          cases ht
          obtain ⟨hvalid, hmem⟩ := @Valid.insert rb root this h
          refine ih hvalid (fun i => ?_) hrest
          rw [hmem i]
          simp only [Op.members, Set.mem_ofPred_eq, hs]
      | remove this =>
          simp only [step, Option.ite_none_right_eq_some, Option.some.injEq] at ht
          obtain ⟨hthis, rfl⟩ := ht
          obtain ⟨hvalid, hmem⟩ := @Valid.remove rb root this h hthis
          refine ih hvalid (fun i => ?_) hrest
          rw [hmem i]
          simp only [Op.members, Set.mem_ofPred_eq, hs]

/-! ## Searching -/

theorem find?_append_cons {α : Type} (p : α → Bool) (l : List α) (a : α) (r : List α) :
    (l ++ a :: r).find? p = (l.find? p).or (if p a then some a else r.find? p) := by
  rw [List.find?_append, List.find?_cons]
  cases p a <;> rfl

/-- The search gives the first overlap of the in-order sequence. -/
theorem Valid.find_eq (h : Valid root) :
    drbdFindOverlap q root = root.inorder.find? (fun i => decide (Overlaps q i)) := by
  induction root with
  | nil => rfl
  | node left here last right ihl ihr =>
      obtain ⟨_, _, hla, har⟩ := h.ordered.node
      rw [inorder, find?_append_cons, ← ihl h.left, ← ihr h.right, drbdFindOverlap]
      split
      · rename_i hgo
        -- some interval on the left ends after the start of the range
        obtain ⟨last', hlast', hlt⟩ := (Option.any_eq_true _ _).1 hgo
        have hlt := of_decide_eq_true hlt
        obtain ⟨i, hi, rfl⟩ := (highest_of_augmented h.augmented.1 hlast').1
        cases hfind : drbdFindOverlap q left with
        | some j => rfl
        | none =>
            -- it does not overlap, so it starts after the range, as does all that follows it
            have hno : ∀ j ∈ left.inorder, ¬ Overlaps q j := by
              intro j hj
              have hn := List.find?_eq_none.1 ((ihl h.left).symm.trans hfind) j hj
              simpa using hn
            have hstart : q.stop ≤ i.sector := Nat.not_lt.1 fun hs => hno i hi ⟨hs, hlt⟩
            have hhere : i.sector ≤ here.sector := by
              rcases hla i hi with hlt | ⟨heq, _⟩
              · exact hlt.le
              · exact heq.le
            have hrest : ∀ j ∈ right.inorder, ¬ Overlaps q j := by
              rintro j hj ⟨hs, _⟩
              rcases har j hj with hlt | ⟨heq, _⟩
              · omega
              · omega
            have hnot : ¬ Overlaps q here := fun ho => by
              have := ho.1
              omega
            rw [Option.none_or, if_neg (by simpa using hnot), ihr h.right, eq_comm, List.find?_eq_none]
            intro j hj
            simpa using hrest j hj
      · rename_i hgo
        have hleft : drbdFindOverlap q left = none := by
          rw [ihl h.left, List.find?_eq_none]
          intro j hj
          have hend : j.stop ≤ q.sector := by
            cases left with
            | nil => cases hj
            | node l a last' r =>
                have hle := (highest_of_augmented h.augmented.1 rfl).2 ⟨j, hj, rfl⟩
                have hnlt : ¬ q.sector < last' := by simpa [summary] using hgo
                omega
          have hnot : ¬ Overlaps q j := fun ho => by
            have := ho.2
            omega
          simpa using hnot
        rw [hleft, Option.none_or]
        split
        · rename_i ho
          rw [if_pos (decide_eq_true (show Overlaps q here from ho))]
        · rename_i ho
          have hnot : ¬ decide (Overlaps q here) = true := by simpa using (show ¬ Overlaps q here from ho)
          rw [if_neg hnot]
          split
          · rfl
          · rename_i hs
            have hafter := sector_lt_stop here
            rw [ihr h.right, eq_comm, List.find?_eq_none]
            intro j hj
            have hnot : ¬ Overlaps q j := fun hj' => by
              have := hj'.1
              rcases har j hj with hlt | ⟨heq, _⟩ <;> omega
            simpa using hnot

theorem following_eq (h : Valid root) {before after : List DrbdInterval} (hin : root.inorder = before ++ i :: after) :
    following root i = after := by
  have hnodup : (before ++ i :: after).Nodup := hin ▸ h.nodup
  have hbefore : ∀ j ∈ before, j ≠ i := fun j hj he =>
    (List.nodup_append.1 hnodup).2.2 j hj i List.mem_cons_self he
  rw [following, hin, List.dropWhile_append_of_pos (fun j hj => decide_eq_true (hbefore j hj)),
    List.dropWhile_cons_of_neg (by simp), List.tail_cons]

theorem nextOverlapIn_eq {is : List DrbdInterval} (h : is.Pairwise Before) :
    nextOverlapIn q is = is.find? (fun i => decide (Overlaps q i)) := by
  induction is with
  | nil => rfl
  | cons i rest ih =>
      obtain ⟨hi, hrest⟩ := List.pairwise_cons.1 h
      unfold nextOverlapIn
      split
      · rename_i hstart
        rw [eq_comm, List.find?_eq_none]
        intro j hj
        have hle : i.sector ≤ j.sector := by
          rcases List.mem_cons.1 hj with rfl | hj
          · exact le_refl _
          · rcases hi j hj with hlt | ⟨heq, _⟩ <;> omega
        have hnot : ¬ Overlaps q j := fun ho => by
          have := ho.1
          omega
        simpa using hnot
      · rename_i hstart
        split
        · rename_i hstop
          have ho : decide (Overlaps q i) = true := decide_eq_true ⟨Nat.not_le.1 hstart, hstop⟩
          rw [List.find?_cons, ho]
        · rename_i hstop
          have ho : decide (Overlaps q i) = false := decide_eq_false fun ho => hstop ho.2
          rw [List.find?_cons, ho, ih hrest]

/-- From any place on, the loop meets the overlaps that are left. -/
theorem forEachOverlap_eq (h : Valid root) {before after : List DrbdInterval} (hin : root.inorder = before ++ after)
    {turns : Nat} (hturns : after.length ≤ turns) :
    forEachOverlap root q turns (after.find? fun i => decide (Overlaps q i)) =
      some (after.filter fun i => decide (Overlaps q i)) := by
  induction after generalizing before turns with
  | nil => cases turns <;> rfl
  | cons i rest ih =>
      have hin' : root.inorder = (before ++ [i]) ++ rest := by rw [hin, List.append_assoc, List.singleton_append]
      rw [List.length_cons] at hturns
      by_cases ho : Overlaps q i
      · obtain ⟨turns, rfl⟩ := Nat.exists_eq_add_of_le' (Nat.lt_of_lt_of_le (Nat.succ_pos _) hturns)
        have hpw : (before ++ i :: rest).Pairwise Before := hin ▸ h.ordered
        have hrest := (List.pairwise_cons.1 (List.pairwise_append.1 hpw).2.1).2
        have hp : decide (Overlaps q i) = true := decide_eq_true ho
        simp only [List.find?_cons, List.filter_cons, hp, if_true]
        rw [forEachOverlap, drbdNextOverlap, following_eq h hin, nextOverlapIn_eq hrest, ih hin' (by omega),
          Option.map_some]
      · have hp : decide (Overlaps q i) = false := decide_eq_false ho
        simp only [List.find?_cons, List.filter_cons, hp]
        exact ih hin' (by omega)

/-- For intervals with sectors in them, the test says whether they share one. -/
theorem overlaps_iff (hq : 0 < q.size) :
    Overlaps q i ↔ ∃ x, (q.sector ≤ x ∧ x < q.stop) ∧ i.sector ≤ x ∧ x < i.stop := by
  have hi := sector_lt_stop i
  have hq' : q.sector < q.stop := by
    have haligned := q.aligned
    rw [stop_eq]
    omega
  unfold Overlaps
  constructor
  · rintro ⟨h1, h2⟩
    exact ⟨max q.sector i.sector, by omega, by omega⟩
  · rintro ⟨x, h1, h2⟩
    omega

/-! ## Every sequence of changes -/

/-- After any insertions and removals the tree is ordered and holds what was put in and not taken out; each
node carries the highest end below it; a search gives the overlap that starts first, if there is
one, and the loop gives all of them, each once and in order. -/
theorem interval_tree (rb : Rb) {ops : List Op} {root : RbTree} (h : run (step rb) .nil ops = some root) :
    root.inorder.Pairwise Before ∧
    (∀ l here last r, Subtree (.node l here last r) root → Highest (.node l here last r) last) ∧
    (∀ i, i ∈ root.inorder ↔ i ∈ ops.foldl Op.members ∅) ∧
    (∀ sector addr, drbdContainsInterval root sector addr = true ↔
      ∃ i ∈ ops.foldl Op.members ∅, i.sector = sector ∧ i.addr = addr) ∧
    ∀ q, (drbdFindOverlap q root = none ↔ ∀ i ∈ root.inorder, ¬ Overlaps q i) ∧
      (∀ i, drbdFindOverlap q root = some i →
        i ∈ root.inorder ∧ Overlaps q i ∧ ∀ j ∈ root.inorder, Overlaps q j → i.sector ≤ j.sector) ∧
      ∃ found, (∀ turns, root.inorder.length ≤ turns →
          forEachOverlap root q turns (drbdFindOverlap q root) = some found) ∧
        found.Pairwise Before ∧ ∀ i, i ∈ found ↔ i ∈ root.inorder ∧ Overlaps q i := by
  obtain ⟨hvalid, hmem⟩ := run_valid valid_nil (s := ∅) (by simp [inorder]) h
  refine ⟨hvalid.ordered, ?_, hmem, ?_, fun q => ⟨?_, ?_, ?_⟩⟩
  · intro l here last r hsub
    exact highest_of_augmented (hsub.augmented hvalid.augmented) rfl
  · intro sector addr
    simp only [hvalid.contains_iff, hmem]
  · rw [hvalid.find_eq, List.find?_eq_none]
    simp only [decide_eq_true_eq]
  · intro i hfind
    rw [hvalid.find_eq, List.find?_eq_some_iff_append] at hfind
    obtain ⟨ho, before, after, hin, hbefore⟩ := hfind
    refine ⟨hin ▸ List.mem_append_right _ List.mem_cons_self, of_decide_eq_true ho, fun j hj hoj => ?_⟩
    rw [hin] at hj
    rcases List.mem_append.1 hj with hj | hj
    · have := hbefore j hj
      simp [hoj] at this
    · rcases List.mem_cons.1 hj with rfl | hj
      · exact le_refl _
      · have hpw : (before ++ i :: after).Pairwise Before := hin ▸ hvalid.ordered
        rcases (List.pairwise_cons.1 (List.pairwise_append.1 hpw).2.1).1 j hj with hlt | ⟨heq, _⟩ <;> omega
  · refine ⟨root.inorder.filter fun i => decide (Overlaps q i), fun turns hturns => ?_, ?_, fun i => ?_⟩
    · rw [hvalid.find_eq]
      exact forEachOverlap_eq hvalid (List.nil_append _).symm hturns
    · exact List.Pairwise.filter _ hvalid.ordered
    · rw [List.mem_filter, decide_eq_true_eq]

/-! ## A tree that is never rotated -/

/-- Deletion from a list, spread out as a tree again. -/
def spine : List DrbdInterval → RbTree
  | [] => .nil
  | i :: rest => .node .nil i 0 (spine rest)

theorem spine_inorder (is : List DrbdInterval) : (spine is).inorder = is := by
  induction is with
  | nil => rfl
  | cons i rest ih => rw [spine, inorder, ih, inorder, List.nil_append]

/-- What the kernel does for up to two nodes: nothing to rotate, and a node with one child gives way to it. -/
def flat : Rb where
  insert _ linked := linked.reaugment updateIntervalEnd
  erase root this := (spine (root.inorder.erase this)).reaugment updateIntervalEnd
  insert_inorder _ := reaugment_inorder _
  insert_called _ := reaugment_reaugmented _
  erase_inorder _ := by rw [reaugment_inorder, spine_inorder]
  erase_called _ := reaugment_reaugmented _

def long : DrbdInterval := ⟨⟨0, 8192, by decide, by decide⟩, 7, by decide⟩

def short : DrbdInterval := ⟨⟨8, 512, by decide, by decide⟩, 3, by decide⟩

/-- The longer interval ends last, though it starts first: nothing overlaps sector 4 but that one. -/
theorem interval_tree_two : run (step flat) .nil [.insert short, .insert long] =
      some (.node (.node .nil long 16 .nil) short 16 .nil) ∧
    ∃ i ∈ [long, short], Overlaps ⟨4, 512, by decide, by decide⟩ i := by
  have hrun : run (step flat) .nil [.insert short, .insert long] =
      some (.node (.node .nil long 16 .nil) short 16 .nil) := by decide
  have hfind := ((interval_tree flat hrun).2.2.2.2 ⟨4, 512, by decide, by decide⟩).2.1 long (by decide)
  exact ⟨hrun, long, List.mem_cons_self, hfind.2.1⟩

end Drbd.Interval
