import Drbd.ActLog.Lemmas.Records
import Drbd.ActLog.Lemmas.Scan

/-!
# The ring along a run

Since the ring was last initialized, transaction `i` has the number `first + i` and, as long as the
counter has not jumped on the ring, the position `(first + i) % mx`. Every active slot is carried by one
of the last transactions: the contexts go round all slots before the ring goes round.
-/

namespace Drbd.ActLog

open Lru Lib

variable {d d' : Device} {first n : Nat} {h : Nat → AlBlock} {toBeChanged : List (Nat × Nat)}

/-! ## Positions -/

theorem Layout.stripes_pos (md : Layout) : 0 < md.alStripes ∧ 0 < md.alStripeSize4k := by
  have hlow := md.lower
  constructor
  · rcases Nat.eq_zero_or_pos md.alStripes with hz | hpos
    · rw [hz, Nat.zero_mul] at hlow; omega
    · exact hpos
  · rcases Nat.eq_zero_or_pos md.alStripeSize4k with hz | hpos
    · rw [hz, Nat.mul_zero] at hlow; omega
    · exact hpos

theorem alTrNumberToOnDiskSlot_inj (md : Layout) {p q : Nat} (hp : p < md.alSize4k) (hq : q < md.alSize4k)
    (h : alTrNumberToOnDiskSlot md p md.alSize4k = alTrNumberToOnDiskSlot md q md.alSize4k) : p = q := by
  unfold alTrNumberToOnDiskSlot at h
  simp only [Nat.mod_eq_of_lt hp, Nat.mod_eq_of_lt hq] at h
  exact stripe_inj hp hq h

/-- The ring in the order in which the replayer reads it. -/
def Device.view (d : Device) (p : Nat) : AlBlock :=
  d.disk (alTrNumberToOnDiskSlot d.md p d.md.alSize4k)

/-- The kernel writes where the replayer looks. -/
theorem update_view (md : Layout) (disk : Nat → AlBlock) (blk : AlBlock) (number : Nat) {p : Nat}
    (hp : p < md.alSize4k) :
    Function.update disk (alTrNumberToOnDiskSector md number / 8) blk
        (alTrNumberToOnDiskSlot md p md.alSize4k)
      = if p = number % md.alSize4k then blk else disk (alTrNumberToOnDiskSlot md p md.alSize4k) := by
  have hmx : 0 < md.alSize4k := by omega
  have hsector : alTrNumberToOnDiskSector md number / 8
      = alTrNumberToOnDiskSlot md (number % md.alSize4k) md.alSize4k := by
    unfold alTrNumberToOnDiskSector alTrNumberToOnDiskSlot
    dsimp only
    rw [Nat.mod_mod, Nat.mul_div_cancel _ (by decide)]
  rw [hsector]
  by_cases heq : p = number % md.alSize4k
  · rw [if_pos heq, ← heq, Function.update_self]
  · rw [if_neg heq, Function.update_of_ne]
    exact fun hslot => heq (alTrNumberToOnDiskSlot_inj md hp (Nat.mod_lt _ hmx) hslot)

/-! ## The way of the context -/

/-- How many transactions it takes to have every slot in some context. -/
def chunks (nrElements : Nat) : Nat :=
  (nrElements + AL_CONTEXT_PER_TRANSACTION - 1) / AL_CONTEXT_PER_TRANSACTION

/-- How many transactions from now the context reaches chunk `q`, when it stands at chunk `a`. -/
def due (total a q : Nat) : Nat :=
  if a ≤ q then q - a + 1 else max total (a + 1) - a + q + 1

theorem chunks_lt (md : Layout) {nrElements : Nat} (hnr : nrElements ≤ drbdAlExtentsMax md) :
    chunks nrElements < md.alSize4k := by
  have hlow : 64 / 8 ≤ md.alSize4k := md.lower
  unfold drbdAlExtentsMax at hnr
  unfold chunks
  dsimp only at hnr
  unfold AL_EXTENTS_MAX AL_CONTEXT_PER_TRANSACTION at *
  split at hnr <;> omega

theorem nextCycle_mod (hmod : d.alTrCycle % AL_CONTEXT_PER_TRANSACTION = 0) :
    nextCycle d % AL_CONTEXT_PER_TRANSACTION = 0 := by
  unfold nextCycle
  dsimp only
  split
  · rfl
  · rw [Nat.add_mod_right, hmod]

theorem nextCycle_lt (hnr : 0 < d.nrElements) : nextCycle d < d.nrElements := by
  unfold nextCycle
  dsimp only
  split <;> omega

/-- Right after a transaction, every slot is due within one round. -/
theorem due_le (hmod : d.alTrCycle % AL_CONTEXT_PER_TRANSACTION = 0) {k : Nat} (hk : k < d.nrElements) :
    due (chunks d.nrElements) (nextCycle d / AL_CONTEXT_PER_TRANSACTION) (k / AL_CONTEXT_PER_TRANSACTION)
      ≤ chunks d.nrElements := by
  have hlt := nextCycle_lt (show 0 < d.nrElements by omega)
  have hmod' := nextCycle_mod hmod
  unfold due chunks
  unfold AL_CONTEXT_PER_TRANSACTION at *
  split <;> omega

/-- A slot that the context does not reach now is due one transaction earlier. -/
theorem due_next (hmod : d.alTrCycle % AL_CONTEXT_PER_TRANSACTION = 0) {k : Nat} (hk : k < d.nrElements)
    (hno : ¬ (d.alTrCycle ≤ k ∧ k < d.alTrCycle + AL_CONTEXT_PER_TRANSACTION)) :
    due (chunks d.nrElements) (nextCycle d / AL_CONTEXT_PER_TRANSACTION) (k / AL_CONTEXT_PER_TRANSACTION) + 1
      ≤ due (chunks d.nrElements) (d.alTrCycle / AL_CONTEXT_PER_TRANSACTION)
        (k / AL_CONTEXT_PER_TRANSACTION) := by
  unfold due chunks nextCycle
  dsimp only
  unfold AL_CONTEXT_PER_TRANSACTION at *
  split <;> split <;> split <;> omega

theorem due_pos (total a q : Nat) : 0 < due total a q := by
  unfold due
  split <;> omega

/-! ## The invariant -/

/-- Slot `k` was carried at transaction `i` and no later transaction says otherwise. -/
structure CarriedAt (d : Device) (n : Nat) (h : Nat → AlBlock) (k i : Nat) : Prop where
  lt : i < n
  recent : n - 1 - i + due (chunks d.nrElements) (d.alTrCycle / AL_CONTEXT_PER_TRANSACTION)
    (k / AL_CONTEXT_PER_TRANSACTION) ≤ chunks d.nrElements
  here : ∀ hot, replayBlock hot (h i) k = d.lcNumber k
  later : ∀ j, i < j → j < n → ∀ hot,
    replayBlock hot (h j) k = d.lcNumber k ∨ replayBlock hot (h j) k = hot k

structure Inv (d : Device) (first n : Nat) (h : Nat → AlBlock) : Prop where
  extents : d.nrElements ≤ drbdAlExtentsMax d.md
  cycleMod : d.alTrCycle % AL_CONTEXT_PER_TRANSACTION = 0
  cycleLt : d.alTrCycle < 2 ^ 16
  number : d.alTrNumber = (first + n) % 2 ^ 32
  firstLt : first < 2 ^ 32
  aligned : 2 ^ 32 % d.md.alSize4k = 0 ∨ first + n ≤ 2 ^ 32
  update : ∀ i < n, (h i).isValid = true ∧ (h i).transactionType = AL_TR_UPDATE ∧
    (h i).trNumber = (first + i) % 2 ^ 32
  ring : ∀ i < n, n ≤ i + d.md.alSize4k → d.view ((first + i) % d.md.alSize4k) = h i
  rest : ∀ p < d.md.alSize4k,
    (∃ i < n, n ≤ i + d.md.alSize4k ∧ (first + i) % d.md.alSize4k = p) ∨ d.view p = initializedBlock
  carried : ∀ k < d.nrElements, d.lcNumber k ≠ LC_FREE → ∃ i, CarriedAt d n h k i

theorem drbdAlExtentsMax_le (md : Layout) : drbdAlExtentsMax md ≤ AL_EXTENTS_MAX := by
  unfold drbdAlExtentsMax AL_EXTENTS_MAX AL_CONTEXT_PER_TRANSACTION
  dsimp only
  split <;> omega

theorem Inv.fresh_iff (hi : Inv d first n h) : Fresh d ↔ n = 0 := by
  have hlow : 64 / 8 ≤ d.md.alSize4k := d.md.lower
  constructor
  · intro hfresh
    by_contra hne
    have hblock := hi.ring (n - 1) (by omega) (by omega)
    have hupdate := (hi.update (n - 1) (by omega)).2.1
    have hinit : (d.view ((first + (n - 1)) % d.md.alSize4k)).transactionType = AL_TR_INITIALIZED :=
      hfresh _ (Nat.mod_lt _ (by omega))
    rw [hblock, hupdate] at hinit
    cases hinit
  · rintro rfl p hp
    rcases hi.rest p hp with ⟨i, hlt, _⟩ | hinit
    · cases hlt
    · exact congrArg AlBlock.transactionType hinit

/-- The next transaction goes to the position after the last one. -/
theorem Inv.position (hi : Inv d first n h) (hplace : InPlace d) :
    (2 ^ 32 % d.md.alSize4k = 0 ∨ first + n < 2 ^ 32) ∧
      d.alTrNumber % d.md.alSize4k = (first + n) % d.md.alSize4k := by
  have haligned : 2 ^ 32 % d.md.alSize4k = 0 ∨ first + n < 2 ^ 32 := by
    rcases hi.aligned with hdvd | hle
    · exact .inl hdvd
    · rcases Nat.lt_or_eq_of_le hle with hlt | heq
      · exact .inr hlt
      · -- the counter is back at zero, so the ring would have to be fresh
        have hfirst := hi.firstLt
        refine (hplace (by rw [hi.number, heq, Nat.mod_self])).imp_right fun hfresh => ?_
        have := hi.fresh_iff.1 hfresh
        omega
  refine ⟨haligned, ?_⟩
  rw [hi.number]
  rcases haligned with hdvd | hlt
  · exact Nat.mod_mod_of_dvd _ (Nat.dvd_of_mod_eq_zero hdvd)
  · rw [Nat.mod_eq_of_lt hlt]

theorem CarriedAt.next {k i : Nat} {d' : Device} (hc : CarriedAt d n h k i) {blk : AlBlock}
    (hnr : d'.nrElements = d.nrElements) (hnumber : d'.lcNumber k = d.lcNumber k)
    (hdue : due (chunks d.nrElements) (d'.alTrCycle / AL_CONTEXT_PER_TRANSACTION)
        (k / AL_CONTEXT_PER_TRANSACTION) + 1
      ≤ due (chunks d.nrElements) (d.alTrCycle / AL_CONTEXT_PER_TRANSACTION)
        (k / AL_CONTEXT_PER_TRANSACTION))
    (hkeep : ∀ hot, replayBlock hot blk k = hot k) :
    CarriedAt d' (n + 1) (Function.update h n blk) k i where
  lt := Nat.lt_succ_of_lt hc.lt
  recent := by
    have hrecent := hc.recent
    have hlt := hc.lt
    rw [hnr]
    omega
  here := by
    rw [Function.update_of_ne (Nat.ne_of_lt hc.lt), hnumber]
    exact hc.here
  later j hij hjn hot := by
    rw [hnumber]
    by_cases hj : j = n
    · subst hj
      rw [Function.update_self]
      exact .inr (hkeep hot)
    · rw [Function.update_of_ne hj]
      exact hc.later j hij (by omega) hot

theorem Inv.write (hi : Inv d first n h) (hplace : InPlace d) (hp : Pending d toBeChanged) :
    Inv { alWriteTransaction d toBeChanged with lcNumber := lcCommitted d.lcNumber toBeChanged } first
      (n + 1) (Function.update h n (fillTransaction d toBeChanged)) := by
  obtain ⟨haligned, hpos⟩ := hi.position hplace
  have hnr : d.nrElements ≤ AL_EXTENTS_MAX := hi.extents.trans (drbdAlExtentsMax_le _)
  have hmx : 0 < d.md.alSize4k := lt_of_lt_of_le (by decide) d.md.lower
  have hview : ∀ p < d.md.alSize4k,
      ({ alWriteTransaction d toBeChanged with lcNumber := lcCommitted d.lcNumber toBeChanged } : Device).view p
        = if p = (first + n) % d.md.alSize4k then fillTransaction d toBeChanged else d.view p := by
    intro p hlt
    rw [← hpos]
    exact update_view d.md d.disk _ d.alTrNumber hlt
  refine ⟨hi.extents, nextCycle_mod hi.cycleMod, ?_, ?_, hi.firstLt, haligned, fun i hin => ?_,
    fun i hin hge => ?_, fun p hlt => ?_, fun k hk hfree => ?_⟩
  · show nextCycle d < 2 ^ 16
    unfold nextCycle
    unfold AL_EXTENTS_MAX at hnr
    dsimp only
    split <;> omega
  · show (d.alTrNumber + 1) % 2 ^ 32 = _
    rw [hi.number, Nat.mod_add_mod]
    rfl
  · by_cases heq : i = n
    · subst heq
      rw [Function.update_self]
      exact ⟨rfl, rfl, hi.number⟩
    · rw [Function.update_of_ne heq]
      exact hi.update i (by omega)
  · have hge : n + 1 ≤ i + d.md.alSize4k := hge
    show Device.view _ ((first + i) % d.md.alSize4k) = _
    rw [hview _ (Nat.mod_lt _ hmx)]
    by_cases heq : i = n
    · subst heq
      rw [if_pos rfl, Function.update_self]
    · rw [Function.update_of_ne heq, if_neg fun hsame => heq (ring_inj (by omega) (by omega) hsame)]
      exact hi.ring i (by omega) (by omega)
  · have hlt : p < d.md.alSize4k := hlt
    rw [hview p hlt]
    by_cases heq : p = (first + n) % d.md.alSize4k
    · exact .inl ⟨n, Nat.lt_succ_self n, Nat.add_le_add_left hmx n, heq.symm⟩
    · rw [if_neg heq]
      refine (hi.rest p hlt).imp_left fun ⟨i, hin, hge, hat⟩ => ⟨i, by omega, ?_, hat⟩
      show n + 1 ≤ i + d.md.alSize4k
      by_contra hlap
      -- one whole turn back is the position written now
      have hturn : n = i + d.md.alSize4k := by omega
      apply heq
      rw [← hat, hturn, ← Nat.add_assoc, Nat.add_mod_right]
  · have hk : k < d.nrElements := hk
    by_cases hcarried : Carried d toBeChanged k
    · refine ⟨n, Nat.lt_succ_self n, ?_, fun hot => ?_, fun j hj hjn => by omega⟩
      · rw [show n + 1 - 1 - n = 0 by omega, Nat.zero_add]
        exact due_le hi.cycleMod hk
      · rw [Function.update_self]
        exact (replayBlock_fill hp hnr hi.cycleLt hk hot).1 hcarried
    · have hkeep := fun hot => (replayBlock_fill hp hnr hi.cycleLt hk hot).2 hcarried
      have hnumber := (hkeep fun _ => 0).2
      obtain ⟨i, hc⟩ := hi.carried k hk (fun hz => hfree (hnumber.trans hz))
      exact ⟨i, hc.next rfl hnumber (due_next hi.cycleMod hk fun hin => hcarried (.inr hin))
        fun hot => (hkeep hot).1⟩

/-- Slots that are only given up need no transaction. -/
theorem Inv.forget (hi : Inv d first n h) {nrElements : Nat} {lcNumber : Nat → Nat}
    (hnr : nrElements ≤ drbdAlExtentsMax d.md)
    (hfree : ∀ k < nrElements, lcNumber k ≠ LC_FREE →
      nrElements = d.nrElements ∧ lcNumber k = d.lcNumber k) :
    Inv { d with nrElements := nrElements, lcNumber := lcNumber } first n h where
  extents := hnr
  cycleMod := hi.cycleMod
  cycleLt := hi.cycleLt
  number := hi.number
  firstLt := hi.firstLt
  aligned := hi.aligned
  update := hi.update
  ring := hi.ring
  rest := hi.rest
  carried k hk hne := by
    obtain ⟨hsame, hnumber⟩ := hfree k hk hne
    obtain ⟨i, hc⟩ := hi.carried k (hsame ▸ hk) (hnumber ▸ hne)
    refine ⟨i, hc.lt, ?_, ?_, ?_⟩
    · dsimp only
      rw [hsame]
      exact hc.recent
    · dsimp only
      rw [hnumber]
      exact hc.here
    · dsimp only
      rw [hnumber]
      exact hc.later

theorem Inv.attached {alTrNumber alTrCycle : Nat} (md : Layout) (alExtents : Nat)
    (hmod : alTrCycle % AL_CONTEXT_PER_TRANSACTION = 0) (hcycle : alTrCycle < 2 ^ 16)
    (hnumber : alTrNumber < 2 ^ 32) (h : Nat → AlBlock) :
    Inv (attached alTrNumber alTrCycle md alExtents) alTrNumber 0 h where
  extents := Nat.min_le_right _ _
  cycleMod := hmod
  cycleLt := hcycle
  number := (Nat.mod_eq_of_lt hnumber).symm
  firstLt := hnumber
  aligned := .inr (Nat.le_of_lt hnumber)
  update i hi := by cases hi
  ring i hi := by cases hi
  rest _ _ := .inr rfl
  carried _ _ hne := absurd rfl hne

theorem Inv.step {e : Event} (hi : Inv d first n h) (hk : Keeps d e) (hs : step d e = some d') :
    ∃ first n h, Inv d' first n h := by
  cases e with
  | beginIoCommit toBeChanged =>
      simp only [ActLog.step] at hs
      split at hs
      · cases hs
        exact ⟨_, _, _, hi.write hk (by assumption)⟩
      · cases hs
  | lcDel slot =>
      cases hs
      refine ⟨_, _, _, hi.forget hi.extents fun k _ hne => ⟨rfl, ?_⟩⟩
      rcases Decidable.em (k = slot) with rfl | hks
      · exact absurd (Function.update_self _ _ _) hne
      · exact Function.update_of_ne hks _ _
  | diskOpts alExtents =>
      cases hs
      exact ⟨_, _, _, hi.forget (Nat.min_le_right _ _) fun _ _ hne => absurd rfl hne⟩
  | attach md alExtents =>
      cases hs
      exact ⟨_, _, h, .attached md alExtents hi.cycleMod hi.cycleLt
        (by rw [hi.number]; exact Nat.mod_lt _ (by decide)) h⟩

end Drbd.ActLog
