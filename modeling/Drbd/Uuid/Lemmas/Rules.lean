import Drbd.Uuid.Lemmas.Mirror

/-!
# Which rule applies
-/

namespace Drbd.Uuid

variable {v : View}

/-! ## What the comparison leaves alone -/

theorem justCreatedRules_peer {r : Verdict} (h : justCreatedRules v = some r) :
    r.self = v.self ∧ r.peer = v.peer := by
  unfold justCreatedRules at h
  dsimp only at h
  split at h
  · cases h
    exact ⟨rfl, rfl⟩
  split at h
  · cases h
    exact ⟨rfl, rfl⟩
  split at h
  · cases h
    exact ⟨rfl, rfl⟩
  · cases h

theorem sameCurrentRules_source (h : 0 < (sameCurrentRules v).hg) :
    (sameCurrentRules v).self.current = v.self.current ∧ (sameCurrentRules v).peer = v.peer := by
  unfold sameCurrentRules at h ⊢
  by_cases h1 : v.peer.bitmap = 0 ∧ v.self.bitmap ≠ 0
  · simp only [if_pos h1] at h ⊢
    split
    · exact ⟨rfl, rfl⟩
    split
    · exact ⟨rfl, rfl⟩
    · exact ⟨rfl, rfl⟩
  simp only [if_neg h1] at h ⊢
  by_cases h2 : v.self.bitmap = 0 ∧ v.peer.bitmap ≠ 0
  · simp only [if_pos h2] at h
    exfalso
    split at h
    · simp at h
    split at h
    · simp at h
    · simp at h
  · simp only [if_neg h2]
    split <;> exact ⟨rfl, rfl⟩

theorem selfKnowsRules_source {r : Verdict} (h : selfKnowsRules v = some r) :
    r.self.current = v.self.current ∧ r.peer = v.peer := by
  unfold selfKnowsRules at h
  dsimp only at h
  by_cases hbm : base v.self.bitmap = base v.peer.current
  · rw [if_pos hbm] at h
    cases h
    exact ⟨rfl, rfl⟩
  rw [if_neg hbm] at h
  by_cases hlost : base v.self.historyStart = base v.peer.current ∧
      LostSyncUuid v.agreedProVersion v.self v.peer
  · rw [if_pos hlost] at h
    split at h
    · cases h
      exact ⟨rfl, rfl⟩
    · cases h
      exact ⟨rfl, rfl⟩
  · rw [if_neg hlost] at h
    split at h
    · cases h
      exact ⟨rfl, rfl⟩
    · cases h

theorem splitBrainRules_kept : (splitBrainRules v).self = v.self ∧ (splitBrainRules v).peer = v.peer := by
  unfold splitBrainRules
  split
  · exact ⟨rfl, rfl⟩
  split
  · exact ⟨rfl, rfl⟩
  · exact ⟨rfl, rfl⟩

/-- The source's corrections concern its own bitmap and history only. -/
theorem compare_source (h : 0 < (drbdUuidCompare v).hg) :
    (drbdUuidCompare v).self.current = v.self.current ∧ (drbdUuidCompare v).peer = v.peer := by
  unfold drbdUuidCompare at h ⊢
  cases hjc : justCreatedRules v with
  | some r =>
      obtain ⟨h1, h2⟩ := justCreatedRules_peer hjc
      exact ⟨congrArg Uuids.current h1, h2⟩
  | none =>
      rw [hjc] at h
      dsimp only at h ⊢
      by_cases heq : base v.self.current = base v.peer.current
      · rw [if_pos heq] at h ⊢
        exact sameCurrentRules_source h
      · rw [if_neg heq] at h ⊢
        cases hp : peerKnowsRules v with
        | some r =>
            rw [hp] at h
            have := peerKnowsRules_neg hp
            dsimp only at h
            omega
        | none =>
            cases hs : selfKnowsRules v with
            | some r => exact selfKnowsRules_source hs
            | none =>
                obtain ⟨h1, h2⟩ := splitBrainRules_kept (v := v)
                exact ⟨congrArg Uuids.current h1, h2⟩

/-! ## Known relations of the data -/

theorem justCreatedRules_data (h0 : base v.self.current ≠ 0) (hj : base v.self.current ≠ uuidJustCreated) :
    justCreatedRules v = none ∨ justCreatedRules v = some (v.verdict 30 2) := by
  unfold justCreatedRules
  dsimp only
  rw [if_neg (fun h => hj h.1), if_neg (fun h => h.1.elim hj h0)]
  split
  · exact .inr rfl
  · exact .inl rfl

theorem justCreatedRules_peerData (h0 : base v.self.current ≠ 0)
    (hj : base v.self.current ≠ uuidJustCreated) (heq : base v.peer.current = base v.self.current) :
    justCreatedRules v = none := by
  unfold justCreatedRules
  simp [heq, h0, hj]

theorem selfKnowsRules_hg {r : Verdict} (hver : 91 ≤ v.agreedProVersion) (h : selfKnowsRules v = some r) :
    1 ≤ r.hg ∧ r.hg ≤ 2 := by
  unfold selfKnowsRules at h
  dsimp only at h
  by_cases hbm : base v.self.bitmap = base v.peer.current
  · rw [if_pos hbm] at h
    cases h
    simp
  rw [if_neg hbm] at h
  by_cases hlost : base v.self.historyStart = base v.peer.current ∧
      LostSyncUuid v.agreedProVersion v.self v.peer
  · rw [if_pos hlost, if_neg (by omega)] at h
    cases h
    simp
  · rw [if_neg hlost] at h
    split at h
    · cases h
      simp
    · cases h

/-- A node that knows the other's data, and whose own data the other does not know, is the source. -/
theorem compare_selfKnows (hver : 91 ≤ v.agreedProVersion) (h0 : base v.self.current ≠ 0)
    (hj : base v.self.current ≠ uuidJustCreated) (hne : base v.self.current ≠ base v.peer.current)
    (hnot : ¬ Lists v.peer v.self.current) (hlists : Lists v.self v.peer.current) :
    1 ≤ (drbdUuidCompare v).hg ∧ (drbdUuidCompare v).hg ≤ 2 := by
  unfold drbdUuidCompare
  rcases justCreatedRules_data h0 hj with hjc | hjc
  · rw [hjc, peerKnowsRules_eq_none.mpr hnot]
    dsimp only
    rw [if_neg hne]
    cases hs : selfKnowsRules v with
    | some r => exact selfKnowsRules_hg hver hs
    | none =>
        exfalso
        unfold selfKnowsRules at hs
        unfold Lists at hlists
        grind
  · rw [hjc]
    simp

/-- The source did not see the end of the resync that the target saw. -/
theorem compare_missedFinish (hver : 91 ≤ v.agreedProVersion) (h0 : base v.self.current ≠ 0)
    (hj : base v.self.current ≠ uuidJustCreated) (hcur : base v.peer.current = base v.self.current)
    (hself : v.self.bitmap ≠ 0) (hpeer : v.peer.bitmap = 0)
    (hbm : base v.self.bitmap = base v.peer.historyStart)
    (hhist : base v.self.historyStart = base v.peer.historyEnd) : (drbdUuidCompare v).hg = 1 := by
  unfold drbdUuidCompare
  rw [justCreatedRules_peerData h0 hj hcur]
  dsimp only
  rw [if_pos hcur.symm]
  unfold sameCurrentRules
  rw [if_pos ⟨hpeer, hself⟩, if_neg (by omega), if_pos ⟨hbm, hhist⟩]

theorem compare_inSync (h0 : base v.self.current ≠ 0) (hj : base v.self.current ≠ uuidJustCreated)
    (hcur : base v.peer.current = base v.self.current) (hself : v.self.bitmap = 0)
    (hpeer : v.peer.bitmap = 0) (hcrash : v.crashedPrimary = false) (hflags : v.peerFlags &&& 2 = 0) :
    (drbdUuidCompare v).hg = 0 := by
  unfold drbdUuidCompare
  rw [justCreatedRules_peerData h0 hj hcur]
  dsimp only
  rw [if_pos hcur.symm]
  unfold sameCurrentRules
  simp [hself, hpeer, hcrash, hflags]

theorem selfKnowsRules_none (hnot : ¬ Lists v.self v.peer.current) : selfKnowsRules v = none := by
  unfold Lists at hnot
  unfold selfKnowsRules
  grind

/-- A node with a generation the peer does not know has something to do. -/
theorem compare_ne_zero (h0 : base v.self.current ≠ 0) (hj : base v.self.current ≠ uuidJustCreated)
    (hne : base v.self.current ≠ base v.peer.current) (hnot : ¬ Lists v.peer v.self.current) :
    (drbdUuidCompare v).hg ≠ 0 := by
  unfold drbdUuidCompare
  rcases justCreatedRules_data h0 hj with hjc | hjc
  · rw [hjc, peerKnowsRules_eq_none.mpr hnot]
    dsimp only
    rw [if_neg hne]
    cases hs : selfKnowsRules v with
    | some r =>
        unfold selfKnowsRules at hs
        grind [View.verdict]
    | none =>
        unfold splitBrainRules
        grind [View.verdict]
  · rw [hjc]
    simp

/-- Two nodes with generations of their own and a common history: split brain. -/
theorem compare_splitBrain (h0 : base v.self.current ≠ 0) (hj : base v.self.current ≠ uuidJustCreated)
    (h0' : base v.peer.current ≠ 0) (hj' : base v.peer.current ≠ uuidJustCreated)
    (hne : base v.self.current ≠ base v.peer.current) (hnot : ¬ Lists v.peer v.self.current)
    (hnot' : ¬ Lists v.self v.peer.current) (hshare : ShareHistory v.self v.peer) :
    (drbdUuidCompare v).hg = 100 ∨ (drbdUuidCompare v).hg = -100 := by
  have hjc : justCreatedRules v = none := by
    unfold justCreatedRules
    simp [h0, hj, h0', hj']
  unfold drbdUuidCompare
  rw [hjc, peerKnowsRules_eq_none.mpr hnot, selfKnowsRules_none hnot']
  dsimp only
  rw [if_neg hne]
  unfold splitBrainRules
  rw [if_pos hshare]
  split
  · exact .inl rfl
  · exact .inr rfl

end Drbd.Uuid
