import Drbd.ActLog.Defs
import Mathlib.Data.List.Basic
import Mathlib.Data.Nat.Basic

/-!
# What a transaction says about a slot

Replayed, a transaction sets every slot that it changes or has in its context to the number the slot
had after it, and leaves all others.
-/

namespace Drbd.ActLog

open Lru

variable {d : Device} {toBeChanged : List (Nat × Nat)}

/-! ## Committing changes -/

theorem lcCommitted_append (f : Nat → Nat) (xs ys : List (Nat × Nat)) :
    lcCommitted f (xs ++ ys) = lcCommitted (lcCommitted f xs) ys :=
  List.foldl_append

theorem lcCommitted_of_ne {f : Nat → Nat} {k : Nat} (h : ∀ c ∈ toBeChanged, c.1 ≠ k) :
    lcCommitted f toBeChanged k = f k := by
  induction toBeChanged generalizing f with
  | nil => rfl
  | cons c cs ih =>
      have hne : k ≠ c.1 := fun heq => h c (List.mem_cons_self) heq.symm
      show lcCommitted (Function.update f c.1 c.2) cs k = f k
      rw [ih fun c' hc' => h c' (List.mem_cons_of_mem c hc'), Function.update_of_ne hne]

/-- A slot that is changed no longer depends on what it was. -/
theorem lcCommitted_of_mem {k : Nat} (h : ∃ c ∈ toBeChanged, c.1 = k) (f g : Nat → Nat) :
    lcCommitted f toBeChanged k = lcCommitted g toBeChanged k := by
  induction toBeChanged generalizing f g with
  | nil => obtain ⟨c, hc, _⟩ := h; cases hc
  | cons c cs ih =>
      show lcCommitted (Function.update f c.1 c.2) cs k = lcCommitted (Function.update g c.1 c.2) cs k
      by_cases hlater : ∃ c' ∈ cs, c'.1 = k
      · exact ih hlater _ _
      · have hne : ∀ c' ∈ cs, c'.1 ≠ k := fun c' hc' heq => hlater ⟨c', hc', heq⟩
        have hk : c.1 = k := by
          obtain ⟨c', hc', heq⟩ := h
          rcases List.mem_cons.1 hc' with rfl | hmem
          · exact heq
          · exact absurd heq (hne c' hmem)
        rw [lcCommitted_of_ne hne, lcCommitted_of_ne hne, hk, Function.update_self, Function.update_self]

/-! ## The two inner loops -/

theorem foldl_replayContext (blk : AlBlock) (hot : Nat → Nat) (n k : Nat) :
    (List.range n).foldl (replayContext blk) hot k
      = if blk.contextStartSlotNr ≤ k ∧ k < blk.contextStartSlotNr + n ∧ k < AL_EXTENTS_MAX ∧
          ¬ (blk.context (k - blk.contextStartSlotNr) = LC_FREE ∧ blk.contextSize ≤ k)
        then blk.context (k - blk.contextStartSlotNr) else hot k := by
  induction n with
  | zero => rw [if_neg (by omega)]; rfl
  | succ n ih =>
      rw [List.range_succ, List.foldl_append, List.foldl_cons, List.foldl_nil]
      generalize (List.range n).foldl (replayContext blk) hot = hot' at ih ⊢
      by_cases hk : k = blk.contextStartSlotNr + n
      · subst hk
        rw [Nat.add_sub_cancel_left]
        unfold replayContext
        split
        · rename_i hskip
          rw [ih, if_neg (by omega), if_neg (by tauto)]
        · split
          · rw [ih, if_neg (by omega), if_neg (by omega)]
          · rw [Function.update_self, if_pos ⟨by omega, by omega, by omega, by assumption⟩]
      · have hother : replayContext blk hot' n k = hot' k := by
          unfold replayContext
          split
          · rfl
          · split
            · rfl
            · rw [Function.update_of_ne hk]
        have hiff : k < blk.contextStartSlotNr + (n + 1) ↔ k < blk.contextStartSlotNr + n := by omega
        rw [hother, ih]
        simp only [hiff]

theorem foldl_replayUpdate (hp : Pending d toBeChanged) (hnr : d.nrElements ≤ AL_EXTENTS_MAX)
    (hot : Nat → Nat) (n : Nat) :
    (List.range n).foldl (replayUpdate (fillTransaction d toBeChanged)) hot
      = lcCommitted hot (toBeChanged.take n) := by
  obtain ⟨_, hlen, hmem⟩ := hp
  unfold AL_UPDATES_PER_TRANSACTION at hlen
  unfold AL_EXTENTS_MAX at hnr
  have hcount : (fillTransaction d toBeChanged).nUpdates = toBeChanged.length :=
    Nat.mod_eq_of_lt (by omega)
  induction n with
  | zero => rfl
  | succ n ih =>
      rw [List.range_succ, List.foldl_append, List.foldl_cons, List.foldl_nil, ih, List.take_add_one,
        lcCommitted_append]
      unfold replayUpdate
      rw [hcount]
      by_cases hn : n < toBeChanged.length
      · have hget : toBeChanged[n]? = some toBeChanged[n] := List.getElem?_eq_getElem hn
        obtain ⟨hslot, hext⟩ := hmem toBeChanged[n] (List.getElem_mem hn)
        have hslotNr : (fillTransaction d toBeChanged).updateSlotNr n = toBeChanged[n].1 := by
          simp only [fillTransaction, hget, Option.map_some, Option.getD_some]
          exact Nat.mod_eq_of_lt (by omega)
        have hextentNr : (fillTransaction d toBeChanged).updateExtentNr n = toBeChanged[n].2 := by
          simp only [fillTransaction, hget, Option.map_some, Option.getD_some]
          exact Nat.mod_eq_of_lt hext
        dsimp only
        rw [hslotNr, hextentNr, if_neg (by omega), if_neg (by unfold AL_EXTENTS_MAX; omega), hget]
        rfl
      · have hget : toBeChanged[n]? = none := List.getElem?_eq_none (by omega)
        have hslotNr : (fillTransaction d toBeChanged).updateSlotNr n = 2 ^ 16 - 1 := by
          simp only [fillTransaction, hget, Option.map_none, Option.getD_none]
        rw [if_pos ⟨by omega, hslotNr⟩, hget]
        rfl

/-! ## The whole block -/

/-- The slots whose number a transaction carries. -/
def Carried (d : Device) (toBeChanged : List (Nat × Nat)) (k : Nat) : Prop :=
  (∃ c ∈ toBeChanged, c.1 = k) ∨ (d.alTrCycle ≤ k ∧ k < d.alTrCycle + AL_CONTEXT_PER_TRANSACTION)

theorem replayBlock_fill (hp : Pending d toBeChanged) (hnr : d.nrElements ≤ AL_EXTENTS_MAX)
    (hcycle : d.alTrCycle < 2 ^ 16) {k : Nat} (hk : k < d.nrElements) (hot : Nat → Nat) :
    (Carried d toBeChanged k →
      replayBlock hot (fillTransaction d toBeChanged) k = lcCommitted d.lcNumber toBeChanged k) ∧
    (¬ Carried d toBeChanged k →
      replayBlock hot (fillTransaction d toBeChanged) k = hot k ∧
        lcCommitted d.lcNumber toBeChanged k = d.lcNumber k) := by
  have hstart : (fillTransaction d toBeChanged).contextStartSlotNr = d.alTrCycle :=
    Nat.mod_eq_of_lt hcycle
  have hsize : (fillTransaction d toBeChanged).contextSize = d.nrElements :=
    Nat.mod_eq_of_lt (by unfold AL_EXTENTS_MAX at hnr; omega)
  have hblock : replayBlock hot (fillTransaction d toBeChanged) = lcCommitted
      ((List.range AL_CONTEXT_PER_TRANSACTION).foldl (replayContext (fillTransaction d toBeChanged)) hot)
      toBeChanged := by
    have hupdate : ¬ ((fillTransaction d toBeChanged).isValid = false ∨
        (fillTransaction d toBeChanged).transactionType = AL_TR_INITIALIZED) :=
      show ¬ (true = false ∨ AL_TR_UPDATE = AL_TR_INITIALIZED) by decide
    unfold replayBlock
    rw [if_neg hupdate, foldl_replayUpdate hp hnr, List.take_of_length_le hp.2.1]
  have hcontext : (List.range AL_CONTEXT_PER_TRANSACTION).foldl
      (replayContext (fillTransaction d toBeChanged)) hot k
      = if d.alTrCycle ≤ k ∧ k < d.alTrCycle + AL_CONTEXT_PER_TRANSACTION then d.lcNumber k else hot k := by
    rw [foldl_replayContext, hstart, hsize]
    by_cases hin : d.alTrCycle ≤ k ∧ k < d.alTrCycle + AL_CONTEXT_PER_TRANSACTION
    · rw [if_pos hin, if_pos ⟨hin.1, hin.2, by omega, by omega⟩]
      simp only [fillTransaction]
      rw [if_pos (by omega), Nat.add_sub_cancel' hin.1]
    · rw [if_neg hin, if_neg (fun h => hin ⟨h.1, h.2.1⟩)]
  rw [hblock]
  by_cases hchanged : ∃ c ∈ toBeChanged, c.1 = k
  · exact ⟨fun _ => lcCommitted_of_mem hchanged _ _, fun hno => absurd (.inl hchanged) hno⟩
  · have hne : ∀ c ∈ toBeChanged, c.1 ≠ k := fun c hc heq => hchanged ⟨c, hc, heq⟩
    rw [lcCommitted_of_ne hne, lcCommitted_of_ne hne, hcontext]
    refine ⟨fun hcarried => ?_, fun hno => ⟨?_, rfl⟩⟩
    · rw [if_pos (hcarried.resolve_left hchanged)]
    · rw [if_neg (fun hin => hno (.inr hin))]

end Drbd.ActLog
