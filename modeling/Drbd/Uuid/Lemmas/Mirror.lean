import Drbd.Uuid.Defs
import Mathlib.Data.Option.Basic

/-!
# The comparison from both sides
-/

namespace Drbd.Uuid

/-- Two views of one pair of nodes. -/
structure Opposite (v w : View) : Prop where
  self : w.self = v.peer
  peer : w.peer = v.self
  crashed : w.crashedPrimary = decide (v.peerFlags &&& 2 ≠ 0)
  peerCrashed : v.crashedPrimary = decide (w.peerFlags &&& 2 ≠ 0)
  resolve : w.resolveConflicts = !v.resolveConflicts
  version : w.agreedProVersion = v.agreedProVersion

/-- The verdict on the other node: a direction turns around, anything else is the same. -/
def turned (hg : Int) : Int := if -2 ≤ hg ∧ hg ≤ 2 then -hg else hg

/-- Two verdicts that go together, where each node knows the other's array as the other has it. -/
structure Mirrors (r s : Verdict) : Prop where
  hg : s.hg = turned r.hg
  self : s.self = r.peer
  peer : s.peer = r.self

/-- The array lists this UUID as an older one. -/
def Lists (u : Uuids) (uuid : UInt64) : Prop :=
  base uuid = base u.bitmap ∨ base uuid = base u.historyStart ∨ base uuid = base u.historyEnd

instance (u : Uuids) (uuid : UInt64) : Decidable (Lists u uuid) := inferInstanceAs (Decidable (_ ∨ _))

variable {v w : View} {r s : Verdict}

theorem turned_turned (hg : Int) : turned (turned hg) = hg := by
  unfold turned
  by_cases h : -2 ≤ hg ∧ hg ≤ 2
  · rw [if_pos h, if_pos (by omega), Int.neg_neg]
  · rw [if_neg h, if_neg h]

theorem Mirrors.symm (h : Mirrors r s) : Mirrors s r :=
  ⟨by rw [h.hg, turned_turned], h.peer.symm, h.self.symm⟩

theorem Opposite.symm (h : Opposite v w) : Opposite w v := by
  refine ⟨h.peer.symm, h.self.symm, h.peerCrashed, h.crashed, ?_, h.version.symm⟩
  rw [h.resolve, Bool.not_not]

theorem Opposite.verdict (h : Opposite v w) (n m : Nat) {hg hg' : Int} (hhg : hg' = turned hg) :
    Mirrors (v.verdict n hg) (w.verdict m hg') :=
  ⟨hhg, h.self, h.peer⟩

/-! ## Group by group -/

theorem justCreatedRules_mirror (h : Opposite v w)
    (hzero : ¬ (base v.self.current = 0 ∧ base v.peer.current = 0)) :
    Option.Rel Mirrors (justCreatedRules v) (justCreatedRules w) := by
  unfold justCreatedRules
  rw [h.self, h.peer]
  generalize base v.self.current = a at *
  generalize base v.peer.current = b at *
  have hjc : uuidJustCreated ≠ 0 := by decide
  by_cases ha : a = uuidJustCreated <;> by_cases hb : b = uuidJustCreated
  · simp only [ha, hb, and_self, if_true]
    exact .some (h.verdict _ _ rfl)
  · simp only [ha, hb, and_false, and_true, true_or, false_or, false_and, if_false, if_true, ne_eq,
      not_true_eq_false, not_false_eq_true]
    exact .some (h.verdict _ _ rfl)
  · simp only [ha, hb, and_false, and_true, true_or, false_or, false_and, if_false, if_true, ne_eq,
      not_true_eq_false, not_false_eq_true]
    exact .some (h.verdict _ _ rfl)
  · by_cases ha0 : a = 0
    · have hb0 : b ≠ 0 := fun hb0 => hzero ⟨ha0, hb0⟩
      simp only [ha0, hb, hb0, hjc.symm, false_and, or_true, true_and, or_false, if_false,
        if_true, ne_eq, not_false_eq_true]
      exact .some (h.verdict _ _ rfl)
    · by_cases hb0 : b = 0
      · simp only [ha, ha0, hb0, hjc.symm, false_and, or_true, true_and, or_false, if_false,
          if_true, ne_eq, not_false_eq_true]
        exact .some (h.verdict _ _ rfl)
      · simp only [ha, hb, ha0, hb0, false_and, or_false, and_false, if_false]
        exact .none

theorem sameCurrentRules_mirror (h : Opposite v w) :
    Mirrors (sameCurrentRules v) (sameCurrentRules w) := by
  unfold sameCurrentRules
  rw [h.self, h.peer, h.version, h.crashed, ← h.peerCrashed, h.resolve]
  by_cases h1 : v.peer.bitmap = 0 ∧ v.self.bitmap ≠ 0
  · have h2 : ¬ (v.self.bitmap = 0 ∧ v.peer.bitmap ≠ 0) := fun hc => h1.2 hc.1
    simp only [if_pos h1, if_neg h2, eq_comm (a := base v.self.bitmap),
      eq_comm (a := base v.self.historyStart)]
    split
    · exact h.verdict _ _ rfl
    · split
      · exact ⟨rfl, rfl, rfl⟩
      · exact h.verdict _ _ rfl
  · by_cases h2 : v.self.bitmap = 0 ∧ v.peer.bitmap ≠ 0
    · simp only [if_neg h1, if_pos h2, eq_comm (a := base v.peer.bitmap),
        eq_comm (a := base v.peer.historyStart)]
      split
      · exact h.verdict _ _ rfl
      · split
        · exact ⟨rfl, rfl, rfl⟩
        · exact h.verdict _ _ rfl
    · simp only [if_neg h1, if_neg h2]
      cases v.crashedPrimary <;> cases decide (v.peerFlags &&& 2 ≠ 0) <;>
        cases v.resolveConflicts <;> exact h.verdict _ _ rfl

/-- The rules about the peer's knowledge are the rules about my own, seen from the peer. -/
theorem knowsRules_mirror (h : Opposite v w) :
    Option.Rel Mirrors (peerKnowsRules v) (selfKnowsRules w) := by
  unfold peerKnowsRules selfKnowsRules
  rw [h.self, h.peer, h.version]
  simp only [eq_comm (a := base v.self.current)]
  split
  · exact .some (h.verdict _ _ rfl)
  split
  · split
    · exact .some (h.verdict _ _ rfl)
    · exact .some ⟨rfl, rfl, rfl⟩
  split
  · exact .some (h.verdict _ _ rfl)
  · exact .none

theorem ShareHistory.symm {u x : Uuids} (h : ShareHistory u x) : ShareHistory x u := by
  rcases h with (h | h) | (h | h)
  · exact .inl (.inl h.symm)
  · exact .inr (.inl h.symm)
  · exact .inl (.inr h.symm)
  · exact .inr (.inr h.symm)

theorem splitBrainRules_mirror (h : Opposite v w) :
    Mirrors (splitBrainRules v) (splitBrainRules w) := by
  unfold splitBrainRules
  rw [h.self, h.peer]
  by_cases hbm : base v.self.bitmap = base v.peer.bitmap ∧ base v.self.bitmap ≠ 0
  · have hbm' : base v.peer.bitmap = base v.self.bitmap ∧ base v.peer.bitmap ≠ 0 :=
      ⟨hbm.1.symm, fun h0 => hbm.2 (hbm.1.trans h0)⟩
    rw [if_pos hbm, if_pos hbm']
    exact h.verdict _ _ rfl
  · have hbm' : ¬ (base v.peer.bitmap = base v.self.bitmap ∧ base v.peer.bitmap ≠ 0) :=
      fun hc => hbm ⟨hc.1.symm, fun h0 => hc.2 (hc.1.trans h0)⟩
    rw [if_neg hbm, if_neg hbm']
    by_cases hsh : ShareHistory v.self v.peer
    · rw [if_pos hsh, if_pos hsh.symm]
      exact h.verdict _ _ rfl
    · rw [if_neg hsh, if_neg (mt ShareHistory.symm hsh)]
      exact h.verdict _ _ rfl

theorem peerKnowsRules_eq_none : peerKnowsRules v = none ↔ ¬ Lists v.peer v.self.current := by
  unfold peerKnowsRules Lists
  dsimp only
  by_cases hbm : base v.self.current = base v.peer.bitmap
  · simp [hbm]
  by_cases hlost : base v.self.current = base v.peer.historyStart ∧
      LostSyncUuid v.agreedProVersion v.peer v.self
  · rw [if_neg hbm, if_pos hlost]
    split <;> simp [hlost.1]
  · rw [if_neg hbm, if_neg hlost]
    split
    · rename_i hh
      simp [hh]
    · rename_i hh
      simp only [hbm, false_or, hh, not_false_eq_true]

theorem selfKnowsRules_eq_none (h : Opposite v w) :
    selfKnowsRules v = none ↔ ¬ Lists v.self v.peer.current := by
  have hrel := knowsRules_mirror h.symm
  have hnone := peerKnowsRules_eq_none (v := w)
  rw [h.self, h.peer] at hnone
  rw [← hnone]
  generalize peerKnowsRules w = pw at hrel ⊢
  generalize selfKnowsRules v = sv at hrel ⊢
  cases hrel with
  | some _ => simp
  | none => simp

/-- The nodes come to matching verdicts when not both of them know the other's current UUID. -/
theorem drbdUuidCompare_mirror (h : Opposite v w)
    (hzero : ¬ (base v.self.current = 0 ∧ base v.peer.current = 0))
    (hlists : justCreatedRules v = none → base v.self.current ≠ base v.peer.current →
      ¬ (Lists v.peer v.self.current ∧ Lists v.self v.peer.current)) :
    Mirrors (drbdUuidCompare v) (drbdUuidCompare w) := by
  unfold drbdUuidCompare
  have hjc := justCreatedRules_mirror h hzero
  generalize hjv : justCreatedRules v = jv at hjc ⊢
  generalize justCreatedRules w = jw at hjc ⊢
  cases hjc with
  | some hm => exact hm
  | none =>
      simp only [h.self, h.peer]
      by_cases heq : base v.self.current = base v.peer.current
      · rw [if_pos heq, if_pos heq.symm]
        exact sameCurrentRules_mirror h
      · rw [if_neg heq, if_neg (Ne.symm heq)]
        by_cases hp : Lists v.peer v.self.current
        · -- the peer knows me, so I do not know the peer
          have hs : ¬ Lists v.self v.peer.current := fun hs => hlists hjv heq ⟨hp, hs⟩
          have hw : peerKnowsRules w = none := by
            rw [peerKnowsRules_eq_none, h.self, h.peer]
            exact hs
          have hv := mt peerKnowsRules_eq_none.mp (not_not.mpr hp)
          have hrel := knowsRules_mirror h
          rw [hw]
          generalize peerKnowsRules v = pv at hv hrel ⊢
          generalize selfKnowsRules w = sw at hrel ⊢
          cases hrel with
          | some hm => exact hm
          | none => exact absurd rfl hv
        · rw [peerKnowsRules_eq_none.mpr hp]
          have hrel := knowsRules_mirror h.symm
          have hw := selfKnowsRules_eq_none h.symm
          rw [h.self, h.peer] at hw
          rw [hw.mpr hp]
          generalize peerKnowsRules w = pw at hrel ⊢
          generalize selfKnowsRules v = sv at hrel ⊢
          cases hrel with
          | some hm => exact hm.symm
          | none => exact splitBrainRules_mirror h

/-! ## The node that is told to be the source -/

theorem peerKnowsRules_neg (h : peerKnowsRules v = some r) : r.hg < 0 := by
  unfold peerKnowsRules at h
  dsimp only at h
  by_cases hbm : base v.self.current = base v.peer.bitmap
  · rw [if_pos hbm] at h
    cases h
    simp
  rw [if_neg hbm] at h
  by_cases hlost : base v.self.current = base v.peer.historyStart ∧
      LostSyncUuid v.agreedProVersion v.peer v.self
  · rw [if_pos hlost] at h
    split at h
    · cases h
      simp
    · cases h
      simp
  · rw [if_neg hlost] at h
    split at h
    · cases h
      simp
    · cases h

theorem justCreatedRules_source (h : justCreatedRules v = some r) (hpos : 0 < r.hg) :
    base v.self.current ≠ uuidJustCreated ∧
      ¬ (base v.self.current = 0 ∧ base v.peer.current = 0) := by
  unfold justCreatedRules at h
  dsimp only at h
  split at h
  · cases h
    exact absurd hpos (by simp)
  split at h
  · cases h
    exact absurd hpos (by simp)
  rename_i _ hlow
  split at h
  · rename_i hsrc
    refine ⟨hsrc.1, fun h0 => hlow ⟨.inr h0.1, ?_⟩⟩
    rw [h0.2]
    decide
  · cases h

theorem justCreatedRules_eq_none (h : justCreatedRules v = none) :
    base v.self.current ≠ uuidJustCreated ∧ base v.self.current ≠ 0 := by
  unfold justCreatedRules at h
  dsimp only at h
  split at h
  · cases h
  split at h
  · cases h
  split at h
  · cases h
  · grind

/-- A node told to be the source has data, and its peer is told to be the target. -/
theorem source_mirror (h : Opposite v w) (hpos : 0 < (drbdUuidCompare v).hg) :
    base v.self.current ≠ uuidJustCreated ∧ Mirrors (drbdUuidCompare v) (drbdUuidCompare w) := by
  have hdata : base v.self.current ≠ uuidJustCreated ∧
      ¬ (base v.self.current = 0 ∧ base v.peer.current = 0) := by
    unfold drbdUuidCompare at hpos
    cases hjc : justCreatedRules v with
    | some r =>
        rw [hjc] at hpos
        exact justCreatedRules_source hjc hpos
    | none =>
        obtain ⟨h1, h2⟩ := justCreatedRules_eq_none hjc
        exact ⟨h1, fun h0 => h2 h0.1⟩
  refine ⟨hdata.1, drbdUuidCompare_mirror h hdata.2 fun hjc heq hboth => ?_⟩
  unfold drbdUuidCompare at hpos
  rw [hjc] at hpos
  dsimp only at hpos
  rw [if_neg heq] at hpos
  cases hp : peerKnowsRules v with
  | some r =>
      rw [hp] at hpos
      have := peerKnowsRules_neg hp
      dsimp only at hpos
      omega
  | none => exact peerKnowsRules_eq_none.mp hp hboth.1

end Drbd.Uuid
