import Drbd.Epoch.Lemmas.Frames

/-!
# The transfer log

What `tl_release` counts at the head of the transfer log, and what it leaves.
-/

namespace Drbd.Epoch

variable {r s : TlReq} {log : List TlReq} {e k : Nat} {rest : List Nat}

/-- A write that was sent and is not yet acked. -/
def TlReq.awaitsAck (r : TlReq) : Bool :=
  r.kind = .data && r.status = .sent

/-- Their epochs, oldest first. -/
def sentEpochs (log : List TlReq) : List Nat :=
  (log.filter TlReq.awaitsAck).map TlReq.epoch

@[simp] theorem sentEpochs_nil : sentEpochs [] = [] := rfl

@[simp] theorem sentEpochs_append (xs ys : List TlReq) : sentEpochs (xs ++ ys) = sentEpochs xs ++ sentEpochs ys := by
  simp [sentEpochs]

theorem sentEpochs_cons_sent (h : r.awaitsAck = true) : sentEpochs (r :: log) = r.epoch :: sentEpochs log := by
  simp [sentEpochs, h]

theorem sentEpochs_cons_other (h : r.awaitsAck = false) : sentEpochs (r :: log) = sentEpochs log := by
  simp [sentEpochs, h]

theorem mem_sentEpochs : e ∈ sentEpochs log ↔ ∃ r ∈ log, r.awaitsAck = true ∧ r.epoch = e := by
  simp [sentEpochs, and_assoc]

theorem sentEpochs_eq_nil (h : ∀ r ∈ log, r.awaitsAck = false) : sentEpochs log = [] := by
  simp [sentEpochs, List.filter_eq_nil_iff.mpr (by simpa using h)]

/-- Only replicated writes and reads are ever sent and waited for. -/
structure TlReq.Sane (r : TlReq) : Prop where
  data : r.kind = .data → r.write = true
  read : r.kind = .read → r.write = false
  sent : r.status = .sent → r.kind = .data ∨ r.kind = .read

/-- The order of two requests in the transfer log, `r` first: epochs grow, the worker's queue is in the same
order, and all writes after a replicated one of the same epoch are replicated. -/
structure Follows (r s : TlReq) : Prop where
  epoch : r.epoch ≤ s.epoch
  queued : r.isQueued = true → s.status = .queued
  whole : r.kind = .data → s.write = true → s.epoch = r.epoch → s.kind = .data

/-! ## The count -/

theorem not_candidate (hsane : r.Sane) (hsent : r.awaitsAck = false) (hqueued : r.isQueued = false) :
    (r.write && r.netMask && !r.netDone) = false := by
  obtain ⟨epoch, write, kind, status⟩ := r
  have hdata := hsane.data
  have hread := hsane.read
  have hs := hsane.sent
  cases kind <;> cases status <;> simp_all [TlReq.awaitsAck, TlReq.isQueued, TlReq.netMask, TlReq.netDone]

/-- Behind a replicated write, the writes of its epoch are those that were sent. -/
theorem count_epoch (hsorted : log.Pairwise Follows) (hge : ∀ r ∈ log, e ≤ r.epoch)
    (hwrite : ∀ r ∈ log, r.epoch = e → (r.write = r.awaitsAck)) (hs : sentEpochs log = List.replicate k e ++ rest)
    (hrest : ∀ x ∈ rest, e < x) : ((log.takeWhile (·.epoch = e)).filter (·.write)).length = k := by
  induction log generalizing k with
  | nil =>
      have hk := congrArg List.length hs
      simp only [sentEpochs_nil, List.length_nil, List.length_append, List.length_replicate] at hk
      simp only [List.takeWhile_nil, List.filter_nil, List.length_nil]
      omega
  | cons r log ih =>
      obtain ⟨hfirst, hsorted⟩ := List.pairwise_cons.mp hsorted
      have hge' : ∀ s ∈ log, e ≤ s.epoch := fun s hs => hge s (List.mem_cons_of_mem r hs)
      have hwrite' : ∀ s ∈ log, s.epoch = e → s.write = s.awaitsAck :=
        fun s hs => hwrite s (List.mem_cons_of_mem r hs)
      by_cases he : r.epoch = e
      · simp only [List.takeWhile_cons, he, decide_true, ↓reduceIte]
        cases hw : r.awaitsAck with
        | true =>
            have hrw : r.write = true := by rw [hwrite r List.mem_cons_self he, hw]
            rw [sentEpochs_cons_sent hw, he] at hs
            cases k with
            | zero =>
                have hmem : e ∈ rest := by
                  rw [List.replicate_zero, List.nil_append] at hs
                  exact hs ▸ List.mem_cons_self
                exact absurd (hrest e hmem) (Nat.lt_irrefl e)
            | succ k =>
                rw [List.replicate_succ, List.cons_append] at hs
                simp only [List.filter_cons, hrw, ↓reduceIte, List.length_cons]
                rw [ih hsorted hge' hwrite' (List.cons.inj hs).2]
        | false =>
            have hrw : r.write = false := by rw [hwrite r List.mem_cons_self he, hw]
            rw [sentEpochs_cons_other hw] at hs
            simp only [List.filter_cons, hrw, Bool.false_eq_true, ↓reduceIte]
            exact ih hsorted hge' hwrite' hs
      · -- The epoch is over; nothing after this one belongs to it.
        have hlt : e < r.epoch := Nat.lt_of_le_of_ne (hge r List.mem_cons_self) (Ne.symm he)
        cases k with
        | zero => simp [he]
        | succ k =>
            have hmem : e ∈ sentEpochs (r :: log) := by
              rw [hs]
              simp
            obtain ⟨s, hsm, -, hse⟩ := mem_sentEpochs.mp hmem
            rcases List.mem_cons.mp hsm with rfl | hsm
            · exact absurd hse he
            · have := (hfirst s hsm).epoch
              omega

/-- The oldest unacked epoch is found, with as many writes as were sent in it. -/
theorem tlExpect_eq (hsorted : log.Pairwise Follows) (hsane : ∀ r ∈ log, r.Sane)
    (hqueued : ∀ r ∈ log, r.isQueued = true → e < r.epoch)
    (hdone : ∀ r ∈ log, r.kind = .data → r.status = .done → r.epoch < e)
    (hs : sentEpochs log = List.replicate (k + 1) e ++ rest) (hrest : ∀ x ∈ rest, e < x) :
    tlExpect log = some (e, k + 1) := by
  induction log with
  | nil => simp at hs
  | cons r log ih =>
      obtain ⟨hfirst, hsorted⟩ := List.pairwise_cons.mp hsorted
      cases hw : r.awaitsAck with
      | true =>
          rw [sentEpochs_cons_sent hw, List.replicate_succ, List.cons_append] at hs
          obtain ⟨he, hs⟩ := List.cons.inj hs
          simp only [TlReq.awaitsAck, Bool.and_eq_true, decide_eq_true_eq] at hw
          have hcand : (r.write && r.netMask && !r.netDone) = true := by
            simp [(hsane r List.mem_cons_self).data hw.1, TlReq.netMask, TlReq.netDone, hw.1, hw.2]
          have hwrite : ∀ s ∈ log, s.epoch = e → s.write = s.awaitsAck := by
            intro s hsm hse
            have hsm' : s ∈ r :: log := List.mem_cons_of_mem r hsm
            cases hsw : s.write with
            | true =>
                have hdata := (hfirst s hsm).whole hw.1 hsw (hse.trans he.symm)
                cases hst : s.status with
                | queued =>
                    have := hqueued s hsm' (by simp [TlReq.isQueued, TlReq.netMask, hdata, hst])
                    omega
                | sent => simp [TlReq.awaitsAck, hdata, hst]
                | done =>
                    have := hdone s hsm' hdata hst
                    omega
            | false =>
                have hdata : s.kind ≠ .data := fun hd => by
                  rw [(hsane s hsm').data hd] at hsw
                  cases hsw
                simp [TlReq.awaitsAck, hdata]
          have hge : ∀ s ∈ log, e ≤ s.epoch := fun s hsm => he ▸ (hfirst s hsm).epoch
          rw [tlExpect, if_pos hcand, he, count_epoch hsorted hge hwrite hs hrest, Nat.add_comm]
      | false =>
          rw [sentEpochs_cons_other hw] at hs
          have hmem : e ∈ sentEpochs log := by
            rw [hs]
            simp
          obtain ⟨s, hsm, -, hse⟩ := mem_sentEpochs.mp hmem
          have hnq : r.isQueued = false := by
            cases hq : r.isQueued with
            | false => rfl
            | true =>
                have h₁ := hqueued r List.mem_cons_self hq
                have h₂ := (hfirst s hsm).epoch
                omega
          rw [tlExpect, not_candidate (hsane r List.mem_cons_self) hw hnq]
          exact ih hsorted (fun s hs => hsane s (List.mem_cons_of_mem r hs))
            (fun s hs => hqueued s (List.mem_cons_of_mem r hs)) (fun s hs => hdone s (List.mem_cons_of_mem r hs)) hs

/-! ## The release -/

/-- The requests of one epoch are barrier-acked. -/
def ackEpoch (e : Nat) (r : TlReq) : TlReq :=
  if r.epoch = e then r.barrierAcked else r

theorem map_ackEpoch_of_ne (h : ∀ r ∈ log, r.epoch ≠ e) : log.map (ackEpoch e) = log := by
  rw [List.map_congr_left (g := id) (fun r hr => by simp [ackEpoch, h r hr]), List.map_id]

theorem map_ackEpoch_behind (hsorted : log.Pairwise Follows) (hge : ∀ r ∈ log, e ≤ r.epoch) :
    (log.takeWhile (·.epoch = e)).map TlReq.barrierAcked ++ log.dropWhile (·.epoch = e) = log.map (ackEpoch e) := by
  induction log with
  | nil => rfl
  | cons r log ih =>
      obtain ⟨hfirst, hsorted⟩ := List.pairwise_cons.mp hsorted
      by_cases he : r.epoch = e
      · simp only [List.takeWhile_cons, List.dropWhile_cons, he, decide_true, ↓reduceIte, List.map_cons,
          List.cons_append, ackEpoch]
        rw [ih hsorted fun s hs => hge s (List.mem_cons_of_mem r hs)]
      · have hlt : e < r.epoch := Nat.lt_of_le_of_ne (hge r List.mem_cons_self) (Ne.symm he)
        have hne : ∀ s ∈ r :: log, s.epoch ≠ e := by
          intro s hs
          rcases List.mem_cons.mp hs with rfl | hs
          · exact he
          · have := (hfirst s hs).epoch
            omega
        rw [map_ackEpoch_of_ne hne]
        simp [he]

/-- The walk of `tl_release` meets exactly the requests of the epoch. -/
theorem release_walk (hsorted : log.Pairwise Follows) :
    log.takeWhile (·.epoch ≠ e) ++
        ((log.dropWhile (·.epoch ≠ e)).takeWhile (·.epoch = e)).map TlReq.barrierAcked ++
        (log.dropWhile (·.epoch ≠ e)).dropWhile (·.epoch = e) = log.map (ackEpoch e) := by
  induction log with
  | nil => rfl
  | cons r log ih =>
      obtain ⟨hfirst, hsorted'⟩ := List.pairwise_cons.mp hsorted
      by_cases he : r.epoch = e
      · have hge : ∀ s ∈ r :: log, e ≤ s.epoch := by
          intro s hs
          rcases List.mem_cons.mp hs with rfl | hs
          · exact Nat.le_of_eq he.symm
          · exact he ▸ (hfirst s hs).epoch
        rw [← map_ackEpoch_behind hsorted hge]
        simp [he]
      · have ih := ih hsorted'
        simp only [List.takeWhile_cons, List.dropWhile_cons, ne_eq, he, not_false_eq_true, decide_true, ↓reduceIte,
          List.cons_append, List.map_cons, ackEpoch] at ih ⊢
        rw [ih]

@[simp] theorem ackEpoch_epoch : (ackEpoch e r).epoch = r.epoch := by
  unfold ackEpoch TlReq.barrierAcked
  split
  · split <;> rfl
  · rfl

@[simp] theorem ackEpoch_kind : (ackEpoch e r).kind = r.kind := by
  unfold ackEpoch TlReq.barrierAcked
  split
  · split <;> rfl
  · rfl

@[simp] theorem ackEpoch_write : (ackEpoch e r).write = r.write := by
  unfold ackEpoch TlReq.barrierAcked
  split
  · split <;> rfl
  · rfl

/-- Only writes of the epoch change, and they are done. -/
theorem ackEpoch_status (e : Nat) (r : TlReq) :
    (ackEpoch e r).status = r.status ∨ r.epoch = e ∧ r.netMask = true ∧ (ackEpoch e r).status = .done := by
  unfold ackEpoch TlReq.barrierAcked
  split
  · split
    · rename_i he hw
      exact Or.inr ⟨he, (by simpa using hw : r.write = true ∧ r.netMask = true).2, rfl⟩
    · exact Or.inl rfl
  · exact Or.inl rfl

theorem ackEpoch_awaitsAck (hsane : r.Sane) :
    (ackEpoch e r).awaitsAck = (r.awaitsAck && decide (r.epoch ≠ e)) := by
  by_cases he : r.epoch = e
  · by_cases hdata : r.kind = .data
    · have hw := hsane.data hdata
      simp [ackEpoch, TlReq.awaitsAck, TlReq.barrierAcked, TlReq.netMask, he, hdata, hw]
    · simp [TlReq.awaitsAck, hdata]
  · simp [ackEpoch, he]

theorem sentEpochs_map_ackEpoch (hsane : ∀ r ∈ log, r.Sane) :
    sentEpochs (log.map (ackEpoch e)) = (sentEpochs log).filter (· ≠ e) := by
  induction log with
  | nil => rfl
  | cons r log ih =>
      have ih := ih fun s hs => hsane s (List.mem_cons_of_mem r hs)
      have hack := ackEpoch_awaitsAck (e := e) (hsane r List.mem_cons_self)
      cases hw : r.awaitsAck with
      | false =>
          rw [hw, Bool.false_and] at hack
          rw [List.map_cons, sentEpochs_cons_other hack, sentEpochs_cons_other hw, ih]
      | true =>
          rw [hw, Bool.true_and] at hack
          by_cases he : r.epoch = e
          · rw [List.map_cons, sentEpochs_cons_other (by simpa [he] using hack), sentEpochs_cons_sent hw, ih]
            simp [he]
          · rw [List.map_cons, sentEpochs_cons_sent (by simpa [he] using hack), sentEpochs_cons_sent hw, ih]
            simp [he]

theorem ackEpoch_sane (hsane : r.Sane) : (ackEpoch e r).Sane := by
  refine ⟨?_, ?_, ?_⟩
  · simpa using hsane.data
  · simpa using hsane.read
  · intro hsent
    rcases ackEpoch_status e r with h | ⟨-, -, h⟩
    · simpa using hsane.sent (h ▸ hsent)
    · rw [h] at hsent
      cases hsent

theorem ackEpoch_isQueued (h : (ackEpoch e r).isQueued = true) :
    r.isQueued = true ∧ (ackEpoch e r).status = r.status := by
  simp only [TlReq.isQueued, TlReq.netMask, ackEpoch_kind, Bool.and_eq_true, decide_eq_true_eq] at h ⊢
  rcases ackEpoch_status e r with hs | ⟨-, -, hs⟩
  · exact ⟨⟨h.1, hs ▸ h.2⟩, hs⟩
  · rw [hs] at h
    cases h.2

/-- Acking an epoch that has nothing left to send keeps the order. -/
theorem ackEpoch_follows (h : Follows r s) (hqueued : r.isQueued = true → e < r.epoch) :
    Follows (ackEpoch e r) (ackEpoch e s) := by
  refine ⟨by simpa using h.epoch, fun hq => ?_, by simpa using h.whole⟩
  obtain ⟨hq, -⟩ := ackEpoch_isQueued hq
  rcases ackEpoch_status e s with hs | ⟨he, -, -⟩
  · rw [hs]
    exact h.queued hq
  · have h₁ := hqueued hq
    have h₂ := h.epoch
    omega

end Drbd.Epoch
