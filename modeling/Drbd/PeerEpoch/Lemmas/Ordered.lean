import Drbd.PeerEpoch.Lemmas.Events

/-!
# The write ordering method

While the method does not change, the writes of an epoch that is acked are on stable storage, by a flush, by a
barrier in the next epoch, or because the only write was a barrier itself.
-/

namespace Drbd.PeerEpoch

variable {c c' : Connection} {e : DrbdEpoch} {rest : List DrbdEpoch} {id i j nr : Nat} {cleanup barrier : Bool}
  {ev : EpochEvent} {w : PeerReq} {ws ws' : List PeerReq} {before after : EeState} {failed : Option WriteOrdering}
  {wo : WriteOrdering} {owed : Nat → Nat}

/-- The writes: none was submitted again, and a completed barrier has all before it on stable storage. -/
structure WritesOrdered (ws : List PeerReq) (wo : WriteOrdering) : Prop where
  plain : ∀ w ∈ ws, w.resubmitted = false ∧ w.state ≠ .reissue
  method : ∀ w ∈ ws, w.isBarrier = true → wo = .bioBarrier
  sorted : ws.Pairwise (·.epoch ≤ ·.epoch)
  barrier : ∀ (i : Nat) (w : PeerReq), ws[i]? = some w → w.isBarrier = true → w.completed = true →
    ∀ (j : Nat) (v : PeerReq), j ≤ i → ws[j]? = some v → v.stable = true

structure Ordered (c : Connection) : Prop where
  writesOrdered : WritesOrdered c.writes c.writeOrdering
  upTo : ∀ w ∈ c.writes, w.epoch ≤ c.currentEpoch.id
  doneStable : 2 ≤ c.writeOrdering.rank → ∀ e ∈ c.all, e.barrierInNextEpochDone = true →
    ∀ w ∈ c.writes, w.epoch = e.id → w.stable = true
  sole : ∀ e ∈ c.all, e.containsABarrier = true → e.epochSize = 1 →
    ∀ w ∈ c.writes, w.epoch = e.id → w.isBarrier = true
  containsMethod : ∀ e ∈ c.all, e.containsABarrier = true → c.writeOrdering = .bioBarrier
  empty : c.currentEpoch.epochSize = 0 →
    c.currentEpoch.containsABarrier = false ∧ ∀ w ∈ c.writes, w.epoch ≠ c.currentEpoch.id
  flushMethod : c.flushWork ≠ [] → c.writeOrdering = .bioBarrier
  flushDone : ∀ f ∈ c.flushWork, ∀ w ∈ c.writes, w.epoch = f → w.state = .finished
  flushClosed : c.cleanedUp = false → c.currentEpoch.id ∈ c.flushWork → c.currentEpoch.haveBarrierNumber = true
  openDone : c.cleanedUp = false → c.currentEpoch.barrierInNextEpochDone = true →
    c.currentEpoch.haveBarrierNumber = true
  draining : c.receiver = .draining → (c.writeOrdering = .drainIo ∨ c.writeOrdering = .bdevFlush) ∧
    (c.cleanedUp = false → c.currentEpoch.haveBarrierNumber = true ∧ c.currentEpoch.barrierInNextEpochDone = false)
  ackedStable : 2 ≤ c.writeOrdering.rank → ∀ a ∈ c.acks, ∀ w ∈ c.writes, w.epoch = a.epoch → w.stable = true

theorem ordered_connected (wo : WriteOrdering) : Ordered (connected wo) := by
  refine ⟨⟨?_, ?_, ?_, ?_⟩, ?_, ?_, ?_, ?_, ?_, ?_, ?_, ?_, ?_, ?_, ?_⟩
  all_goals simp [connected, DrbdEpoch.fresh, Connection.all]

/-! ## Finishing -/

theorem writes_finished_of_refs (h : c.refs id = 0) : ∀ w ∈ c.writes, w.epoch = id → w.state = .finished := by
  intro w hw he
  exact keys_finished_of_refs h (w.epoch, w.state) (List.mem_map_of_mem hw) he

/-- The writes of an epoch that is finished, and not by a cleanup, are on stable storage. -/
theorem Ordered.stable_of_finish (h : Ordered c) (hb : Basic c owesNothing) (he : e ∈ c.all)
    (hv : verdict c.writeOrdering false e = .finish) (hrank : 2 ≤ c.writeOrdering.rank) :
    ∀ w ∈ c.writes, w.epoch = e.id → w.stable = true := by
  obtain ⟨-, hactive, -, hwhy⟩ := verdict_finish hv
  intro w hw hwe
  rcases hwhy with hdone | hnone | ⟨hsize, hcontains⟩ | hcl
  · exact h.doneStable hrank e he hdone w hw hwe
  · rw [hnone] at hrank
    simp [WriteOrdering.rank] at hrank
  · have hbar := h.sole e he hcontains hsize w hw hwe
    have hfin := writes_finished_of_refs (hb.refs_of_active he hactive) w hw hwe
    obtain ⟨i, hi⟩ := List.getElem?_of_mem hw
    exact h.writesOrdered.barrier i w hi hbar (by simp [PeerReq.completed, hfin]) i w (Nat.le_refl i) hi
  · cases hcl

theorem destroyOldest_rest : (c.destroyOldest cleanup e rest).writes = c.writes ∧
    (c.destroyOldest cleanup e rest).writeOrdering = c.writeOrdering ∧
    (c.destroyOldest cleanup e rest).currentEpoch = c.currentEpoch := by
  unfold Connection.destroyOldest Connection.sendBAck
  split <;> exact ⟨rfl, rfl, rfl⟩

theorem Ordered.destroyOldest (h : Ordered c) (hb : Basic c owesNothing) (hold : c.older = e :: rest)
    (hv : verdict c.writeOrdering cleanup e = .finish) : Ordered (c.destroyOldest cleanup e rest) := by
  obtain ⟨hfw, -, hrecv, hclean, -, -⟩ := @destroyOldest_same c e rest cleanup
  obtain ⟨hws, hwo, hcur⟩ := @destroyOldest_rest c e rest cleanup
  have hall := all_of_older hold
  have hsub : ∀ d ∈ (c.destroyOldest cleanup e rest).all, d ∈ c.all := fun d hd => by
    rw [destroyOldest_all] at hd
    rw [hall]
    exact List.mem_cons_of_mem e hd
  refine ⟨?_, ?_, ?_, ?_, ?_, ?_, ?_, ?_, ?_, ?_, ?_, ?_⟩
  · rw [hws, hwo]
    exact h.writesOrdered
  · rw [hws, hcur]
    exact h.upTo
  · rw [hws, hwo]
    exact fun hr d hd => h.doneStable hr d (hsub d hd)
  · rw [hws]
    exact fun d hd => h.sole d (hsub d hd)
  · rw [hwo]
    exact fun d hd => h.containsMethod d (hsub d hd)
  · rw [hws, hcur]
    exact h.empty
  · rw [hfw, hwo]
    exact h.flushMethod
  · rw [hfw, hws]
    exact h.flushDone
  · rw [hclean, hcur, hfw]
    exact h.flushClosed
  · rw [hclean, hcur]
    exact h.openDone
  · rw [hrecv, hwo, hclean, hcur]
    exact h.draining
  · rw [hwo, destroyOldest_acks, hws]
    intro hr a ha
    rcases List.mem_append.mp ha with ha | ha
    · exact h.ackedStable hr a ha
    · cases hcl : cleanup with
      | true =>
          rw [hcl] at ha
          cases ha
      | false =>
          rw [hcl] at ha hv
          cases List.mem_singleton.mp ha
          exact h.stable_of_finish hb (by simp [hall]) hv hr

theorem recycle_rest : (c.recycle cleanup).writes = c.writes ∧
    (c.recycle cleanup).writeOrdering = c.writeOrdering := by
  unfold Connection.recycle Connection.sendBAck
  split <;> exact ⟨rfl, rfl⟩

theorem Ordered.recycle (h : Ordered c) (hb : Basic c owesNothing) (hold : c.older = [])
    (hv : verdict c.writeOrdering cleanup c.currentEpoch = .finish) (hcleanup : cleanup = true → c.cleanedUp = true) :
    Ordered (c.recycle cleanup) := by
  obtain ⟨hfw, hrecv, hclean, -, -, -⟩ := @recycle_same c cleanup
  obtain ⟨hws, hwo⟩ := @recycle_rest c cleanup
  have hall : ∀ d ∈ (c.recycle cleanup).all, d = (c.recycle cleanup).currentEpoch := by
    intro d hd
    rw [all_of_nil (by simpa using hold)] at hd
    exact List.mem_singleton.mp hd
  have hnamed : ∀ w ∈ c.writes, w.epoch < c.nextId := fun w hw =>
    hb.keysNamed (w.epoch, w.state) (List.mem_map_of_mem hw)
  refine ⟨?_, ?_, ?_, ?_, ?_, ?_, ?_, ?_, ?_, ?_, ?_, ?_⟩
  · rw [hws, hwo]
    exact h.writesOrdered
  · rw [hws]
    exact fun w hw => Nat.le_of_lt (hnamed w hw)
  · intro _ d hd hdone
    rw [hall d hd] at hdone
    cases hdone
  · intro d hd hcontains
    rw [hall d hd] at hcontains
    cases hcontains
  · intro d hd hcontains
    rw [hall d hd] at hcontains
    cases hcontains
  · rw [hws]
    exact fun _ => ⟨rfl, fun w hw => Nat.ne_of_lt (hnamed w hw)⟩
  · rw [hfw, hwo]
    exact h.flushMethod
  · rw [hfw, hws]
    exact h.flushDone
  · rw [hfw]
    intro _ hmem
    obtain ⟨d, hd, hid⟩ := hb.flushLive _ hmem
    have hlt := hb.named d hd
    rw [hid] at hlt
    exact absurd hlt (Nat.lt_irrefl _)
  · intro _ hdone
    cases hdone
  · -- While the receiver drains, nothing but a cleanup finishes the current epoch.
    rw [hrecv, hwo, hclean]
    intro hd
    obtain ⟨hm, hc⟩ := h.draining hd
    refine ⟨hm, fun hcl => ?_⟩
    have hnotcl : cleanup = false := by
      cases hcb : cleanup with
      | false => rfl
      | true =>
          rw [hcleanup hcb] at hcl
          cases hcl
    subst hnotcl
    obtain ⟨-, -, -, hwhy⟩ := verdict_finish hv
    rcases hwhy with hdone | hnone | ⟨-, hcontains⟩ | hf
    · rw [(hc hcl).2] at hdone
      cases hdone
    · rcases hm with hm | hm
      · rw [hnone] at hm
        cases hm
      · rw [hnone] at hm
        cases hm
    · have hbio := h.containsMethod _ (currentEpoch_mem c) hcontains
      rcases hm with hm | hm
      · rw [hbio] at hm
        cases hm
      · rw [hbio] at hm
        cases hm
    · cases hf
  · rw [hwo, recycle_acks, hws]
    intro hr a ha
    rcases List.mem_append.mp ha with ha | ha
    · exact h.ackedStable hr a ha
    · cases hcl : cleanup with
      | true =>
          rw [hcl] at ha
          cases ha
      | false =>
          rw [hcl] at ha hv
          cases List.mem_singleton.mp ha
          exact h.stable_of_finish hb (currentEpoch_mem c) hv hr

/-- An update of epochs that keeps all but the counter and the ISSUED flag. -/
structure SameFlags (e d : DrbdEpoch) : Prop extends SameEpoch e d where
  barrierInNextEpochDone : d.barrierInNextEpochDone = e.barrierInNextEpochDone
  containsABarrier : d.containsABarrier = e.containsABarrier

theorem SameFlags.modifyId (id : Nat) {f : DrbdEpoch → DrbdEpoch} (hf : ∀ e, SameFlags e (f e)) (e : DrbdEpoch) :
    SameFlags e (modifyId id f e) := by
  unfold PeerEpoch.modifyId
  split
  · exact hf e
  · exact ⟨SameEpoch.refl e, rfl, rfl⟩

theorem Ordered.update {g : DrbdEpoch → DrbdEpoch} {fw : List Nat} {cl : Bool} (h : Ordered c)
    (hg : ∀ e, SameFlags e (g e)) (hcl : c.cleanedUp = true → cl = true)
    (hflush : ∀ f ∈ fw, f ∈ c.flushWork ∨ c.writeOrdering = .bioBarrier ∧
      (∀ w ∈ c.writes, w.epoch = f → w.state = .finished) ∧
      (f = c.currentEpoch.id → c.currentEpoch.haveBarrierNumber = true)) :
    Ordered { c with older := c.older.map g, currentEpoch := g c.currentEpoch, flushWork := fw, cleanedUp := cl } := by
  have hall : Connection.all { c with
      older := c.older.map g, currentEpoch := g c.currentEpoch, flushWork := fw, cleanedUp := cl } = c.all.map g := by
    simp [Connection.all]
  have hmem : ∀ d ∈ c.all.map g, ∃ e ∈ c.all, SameFlags e d := fun d hd => by
    obtain ⟨e, he, rfl⟩ := List.mem_map.mp hd
    exact ⟨e, he, hg e⟩
  have hopen : cl = false → c.cleanedUp = false := by
    intro hf
    cases hb : c.cleanedUp with
    | false => rfl
    | true =>
        rw [hcl hb] at hf
        cases hf
  have hcur := hg c.currentEpoch
  refine ⟨h.writesOrdered, ?_, ?_, ?_, ?_, ?_, ?_, ?_, ?_, ?_, ?_, h.ackedStable⟩
  · intro w hw
    rw [hcur.id]
    exact h.upTo w hw
  · rw [hall]
    intro hr d hd hdone w hw hwe
    obtain ⟨e, he, hs⟩ := hmem d hd
    exact h.doneStable hr e he (hs.barrierInNextEpochDone ▸ hdone) w hw (hs.id ▸ hwe)
  · rw [hall]
    intro d hd hc hsz w hw hwe
    obtain ⟨e, he, hs⟩ := hmem d hd
    exact h.sole e he (hs.containsABarrier ▸ hc) (hs.epochSize ▸ hsz) w hw (hs.id ▸ hwe)
  · rw [hall]
    intro d hd hc
    obtain ⟨e, he, hs⟩ := hmem d hd
    exact h.containsMethod e he (hs.containsABarrier ▸ hc)
  · dsimp only
    rw [hcur.epochSize, hcur.containsABarrier, hcur.id]
    exact h.empty
  · intro hne
    obtain ⟨f, hf⟩ := List.exists_mem_of_ne_nil _ hne
    rcases hflush f hf with hf | ⟨hm, -, -⟩
    · exact h.flushMethod (List.ne_nil_of_mem hf)
    · exact hm
  · intro f hf
    rcases hflush f hf with hf | ⟨-, hd, -⟩
    · exact h.flushDone f hf
    · exact hd
  · dsimp only
    rw [hcur.id, hcur.haveBarrierNumber]
    intro hf hin
    rcases hflush _ hin with hin | ⟨-, -, hh⟩
    · exact h.flushClosed (hopen hf) hin
    · exact hh rfl
  · dsimp only
    rw [hcur.barrierInNextEpochDone, hcur.haveBarrierNumber]
    exact fun hf => h.openDone (hopen hf)
  · dsimp only
    rw [hcur.barrierInNextEpochDone, hcur.haveBarrierNumber]
    exact fun hd => ⟨(h.draining hd).1, fun hf => (h.draining hd).2 (hopen hf)⟩

theorem Basic.eq_current (hb : Basic c owed) (he : e ∈ c.all) (hid : e.id = c.currentEpoch.id) :
    e = c.currentEpoch := by
  rcases List.mem_append.mp he with he | he
  · have := (List.pairwise_append.mp hb.sorted).2.2 e he c.currentEpoch (List.mem_singleton_self _)
    omega
  · exact List.mem_singleton.mp he

theorem Ordered.queueFlush (h : Ordered c) (hb : Basic c owesNothing)
    (hv : verdict c.writeOrdering cleanup c.oldest = .scheduleFlush) : Ordered (c.queueFlush c.oldest.id) := by
  obtain ⟨-, hactive, hhave, -⟩ := verdict_scheduleFlush hv
  have hrefs := hb.refs_of_active (oldest_mem c) hactive
  refine h.update (SameFlags.modifyId _ fun e => ⟨⟨rfl, rfl, rfl, rfl⟩, rfl, rfl⟩) (fun hc => hc) fun f hf => ?_
  rcases List.mem_append.mp hf with hf | hf
  · exact Or.inl hf
  · cases List.mem_singleton.mp hf
    refine Or.inr ⟨?_, writes_finished_of_refs hrefs, fun hid => ?_⟩
    · unfold verdict at hv
      split at hv
      · split at hv
        · cases hv
        · split at hv
          · rename_i hm
            simp only [Bool.and_eq_true, decide_eq_true_eq] at hm
            exact hm.2
          · cases hv
      · cases hv
    · rw [← hb.eq_current (oldest_mem c) hid]
      exact hhave

/-- Kept by the loop, given the invariants after the event. -/
theorem Ordered.finish (h : Ordered (c.afterEvent id ev cleanup))
    (hb : Basic (c.afterEvent id ev cleanup) owesNothing) :
    Ordered (drbdMayFinishEpoch c id ev cleanup) := by
  have hP : Ordered (drbdMayFinishEpoch c id ev cleanup) ∧ Basic (drbdMayFinishEpoch c id ev cleanup) owesNothing ∧
      (cleanup = true → (drbdMayFinishEpoch c id ev cleanup).cleanedUp = true) := by
    refine drbdMayFinishEpoch_rule
      (P := fun c => Ordered c ∧ Basic c owesNothing ∧ (cleanup = true → c.cleanedUp = true)) ?_ ?_ ?_
      ⟨h, hb, fun hc => by simp [Connection.afterEvent, hc]⟩
    · intro c e rest hc hold hv
      refine ⟨hc.1.destroyOldest hc.2.1 hold hv, hc.2.1.destroyOldest hold hv hc.2.2, ?_⟩
      rw [destroyOldest_same.2.2.2.1]
      exact hc.2.2
    · exact fun c hc hv => ⟨hc.1.queueFlush hc.2.1 hv, hc.2.1.queueFlush, hc.2.2⟩
    · intro c hc hold hv
      refine ⟨hc.1.recycle hc.2.1 hold hv hc.2.2, hc.2.1.recycle hold hv hc.2.2, ?_⟩
      rw [recycle_same.2.2.1]
      exact hc.2.2
  exact hP.1

/-! ## Events on epochs -/

theorem Ordered.put (h : Ordered c) (hb : Basic c (owesOne id)) : Ordered (drbdMayFinishEpoch c id .put cleanup) := by
  have hafter : Ordered (c.afterEvent id .put cleanup) :=
    h.update (SameFlags.modifyId _ fun e => ⟨⟨rfl, rfl, rfl, rfl⟩, rfl, rfl⟩) (fun hc => by simp [hc])
      fun f hf => Or.inl hf
  exact hafter.finish hb.afterPut

theorem Ordered.setIssued (h : Ordered c) : Ordered (c.setIssued id) :=
  h.update (SameFlags.modifyId _ fun _ => ⟨⟨rfl, rfl, rfl, rfl⟩, rfl, rfl⟩) (fun hc => hc) fun _ hf => Or.inl hf

/-- The DONE flag is set once the writes of the epoch are on stable storage. -/
theorem Ordered.barrierDone (h : Ordered c) (hb : Basic c owesNothing)
    (hstable : 2 ≤ c.writeOrdering.rank → ∀ w ∈ c.writes, w.epoch = id → w.stable = true)
    (hhave : c.cleanedUp = false → c.currentEpoch.id = id → c.currentEpoch.haveBarrierNumber = true)
    (hdrain : c.receiver = .draining → c.currentEpoch.id ≠ id) :
    Ordered (drbdMayFinishEpoch c id .barrierDone cleanup) := by
  refine Ordered.finish ?_ hb.afterDone
  have hopen : (c.afterEvent id .barrierDone cleanup).cleanedUp = false → c.cleanedUp = false := by
    simp only [Connection.afterEvent, Bool.or_eq_false_iff]
    exact fun hf => hf.1
  have hsame : ∀ e, SameEpoch e (modifyId id (applyEvent c.writeOrdering (id = c.currentEpoch.id) .barrierDone) e) :=
    SameEpoch.modifyId fun e => ⟨rfl, rfl, rfl, rfl⟩
  have hcontains : ∀ e : DrbdEpoch, (modifyId id (applyEvent c.writeOrdering (id = c.currentEpoch.id) .barrierDone)
      e).containsABarrier = e.containsABarrier := by
    intro e
    unfold modifyId
    split <;> rfl
  have hcur := hsame c.currentEpoch
  refine ⟨h.writesOrdered, ?_, ?_, ?_, ?_, ?_, h.flushMethod, h.flushDone, ?_, ?_, ?_, h.ackedStable⟩
  · intro w hw
    exact hcur.id ▸ h.upTo w hw
  · rw [afterEvent_all]
    intro hr d hd hdone w hw hwe
    obtain ⟨e, he, rfl⟩ := List.mem_map.mp hd
    rw [(hsame e).id] at hwe
    by_cases hid : e.id = id
    · exact hstable hr w hw (hwe.trans hid)
    · rw [modifyId_of_ne hid] at hdone
      exact h.doneStable hr e he hdone w hw hwe
  · rw [afterEvent_all]
    intro d hd hc hsz w hw hwe
    obtain ⟨e, he, rfl⟩ := List.mem_map.mp hd
    rw [(hsame e).id] at hwe
    rw [hcontains] at hc
    rw [(hsame e).epochSize] at hsz
    exact h.sole e he hc hsz w hw hwe
  · rw [afterEvent_all]
    intro d hd hc
    obtain ⟨e, he, rfl⟩ := List.mem_map.mp hd
    rw [hcontains] at hc
    exact h.containsMethod e he hc
  · intro hz
    have := h.empty (hcur.epochSize ▸ hz)
    refine ⟨(hcontains c.currentEpoch).trans this.1, fun w hw => ?_⟩
    exact hcur.id ▸ this.2 w hw
  · intro hf hin
    exact hcur.haveBarrierNumber.trans (h.flushClosed (hopen hf) (hcur.id ▸ hin))
  · intro hf hdone
    refine hcur.haveBarrierNumber.trans ?_
    by_cases hid : c.currentEpoch.id = id
    · exact hhave (hopen hf) hid
    · have hdone' : (modifyId id (applyEvent c.writeOrdering (id = c.currentEpoch.id) .barrierDone)
          c.currentEpoch).barrierInNextEpochDone = true := hdone
      rw [modifyId_of_ne hid] at hdone'
      exact h.openDone (hopen hf) hdone'
  · intro hd
    obtain ⟨hm, hc⟩ := h.draining hd
    refine ⟨hm, fun hf => ?_⟩
    have hkeep : (c.afterEvent id .barrierDone cleanup).currentEpoch = c.currentEpoch := modifyId_of_ne (hdrain hd)
    rw [hkeep]
    exact hc (hopen hf)

theorem Ordered.noteBarrier (nr : Nat) (h : Ordered c) (hsize : c.currentEpoch.epochSize ≠ 0) :
    Ordered ((c.noteBarrier nr).afterEvent c.currentEpoch.id .gotBarrierNr false) := by
  have hmem : ∀ d ∈ ((c.noteBarrier nr).afterEvent c.currentEpoch.id .gotBarrierNr false).all, ∃ e ∈ c.all,
      d.id = e.id ∧ d.epochSize = e.epochSize ∧ d.barrierInNextEpochDone = e.barrierInNextEpochDone ∧
        (d.containsABarrier = true → e.containsABarrier = true) := by
    intro d hd
    rw [afterEvent_all] at hd
    obtain ⟨e, he, rfl⟩ := List.mem_map.mp hd
    rcases List.mem_append.mp he with he | he
    · refine ⟨e, List.mem_append_left _ he, ?_⟩
      unfold modifyId
      split
      · refine ⟨rfl, rfl, rfl, fun hc => ?_⟩
        simp only [applyEvent, Bool.and_eq_true] at hc
        exact hc.1
      · exact ⟨rfl, rfl, rfl, fun hc => hc⟩
    · cases List.mem_singleton.mp he
      refine ⟨c.currentEpoch, currentEpoch_mem c, ?_⟩
      unfold modifyId
      split
      · refine ⟨rfl, rfl, rfl, fun hc => ?_⟩
        simp only [applyEvent, Bool.and_eq_true] at hc
        exact hc.1
      · exact ⟨rfl, rfl, rfl, fun hc => hc⟩
  have hcur : ((c.noteBarrier nr).afterEvent c.currentEpoch.id .gotBarrierNr false).currentEpoch =
      applyEvent c.writeOrdering (c.currentEpoch.id = c.currentEpoch.id) .gotBarrierNr
        { c.currentEpoch with barrierNr := nr } := modifyId_of_eq rfl
  refine ⟨h.writesOrdered, ?_, ?_, ?_, ?_, ?_, h.flushMethod, h.flushDone, ?_, ?_, ?_, h.ackedStable⟩
  · rw [hcur]
    exact h.upTo
  · intro hr d hd hdone w hw hwe
    obtain ⟨e, he, h₁, -, h₃, -⟩ := hmem d hd
    exact h.doneStable hr e he (h₃ ▸ hdone) w hw (h₁ ▸ hwe)
  · intro d hd hc hsz w hw hwe
    obtain ⟨e, he, h₁, h₂, -, h₄⟩ := hmem d hd
    exact h.sole e he (h₄ hc) (h₂ ▸ hsz) w hw (h₁ ▸ hwe)
  · intro d hd hc
    obtain ⟨e, he, -, -, -, h₄⟩ := hmem d hd
    exact h.containsMethod e he (h₄ hc)
  · rw [hcur]
    exact fun hz => absurd hz hsize
  · rw [hcur]
    exact fun _ _ => rfl
  · rw [hcur]
    exact fun _ _ => rfl
  · intro hd
    cases hd

/-! ## Events on writes -/

/-- What a write may turn into. -/
structure Advances (w v : PeerReq) : Prop where
  epoch : v.epoch = w.epoch
  isBarrier : v.isBarrier = w.isBarrier
  resubmitted : v.resubmitted = w.resubmitted
  stable : w.stable = true → v.stable = true
  reissue : v.state ≠ .reissue
  finished : w.state = .finished → v.state = .finished

/-- Writes change one by one, and only towards being finished and stable. -/
theorem Ordered.setWrites {φ : Nat → PeerReq → PeerReq} {r : Receiver} (h : Ordered c)
    (hrel : ∀ j : Nat, ws[j]? = c.writes[j]?.map (φ j))
    (hφ : ∀ (j : Nat) (w : PeerReq), c.writes[j]? = some w → Advances w (φ j w))
    (hbarrier : ∀ (i : Nat) (w : PeerReq), c.writes[i]? = some w → w.isBarrier = true → (φ i w).completed = true →
      w.completed = true ∨ ∀ (j : Nat) (v : PeerReq), j ≤ i → c.writes[j]? = some v → (φ j v).stable = true)
    (hr : r = .draining → c.receiver = .draining) : Ordered { c with writes := ws, receiver := r } := by
  have hmem : ∀ v ∈ ws, ∃ w ∈ c.writes, Advances w v := by
    intro v hv
    obtain ⟨j, hj⟩ := List.getElem?_of_mem hv
    rw [hrel, Option.map_eq_some_iff] at hj
    obtain ⟨w, hw, rfl⟩ := hj
    exact ⟨w, List.mem_of_getElem? hw, hφ j w hw⟩
  have hepochs : ws.map (·.epoch) = c.writes.map (·.epoch) := by
    refine List.ext_getElem? fun j => ?_
    rw [List.getElem?_map, List.getElem?_map, hrel]
    cases hw : c.writes[j]? with
    | none => rfl
    | some w => exact congrArg some (hφ j w hw).epoch
  refine ⟨⟨?_, ?_, ?_, ?_⟩, ?_, ?_, ?_, h.containsMethod, ?_, h.flushMethod, ?_, h.flushClosed, h.openDone, ?_, ?_⟩
  · intro v hv
    obtain ⟨w, hw, ha⟩ := hmem v hv
    exact ⟨ha.resubmitted.trans (h.writesOrdered.plain w hw).1, ha.reissue⟩
  · intro v hv hvb
    obtain ⟨w, hw, ha⟩ := hmem v hv
    exact h.writesOrdered.method w hw (ha.isBarrier ▸ hvb)
  · have hs : (c.writes.map (·.epoch)).Pairwise (· ≤ ·) := List.pairwise_map.mpr h.writesOrdered.sorted
    rw [← hepochs] at hs
    exact List.pairwise_map.mp hs
  · intro i v hi hvb hvc j u hj hu
    dsimp only at hi hu
    rw [hrel, Option.map_eq_some_iff] at hi hu
    obtain ⟨w, hw, rfl⟩ := hi
    obtain ⟨x, hx, rfl⟩ := hu
    rw [(hφ i w hw).isBarrier] at hvb
    rcases hbarrier i w hw hvb hvc with hc | hs
    · exact (hφ j x hx).stable (h.writesOrdered.barrier i w hw hvb hc j x hj hx)
    · exact hs j x hj hx
  · intro v hv
    obtain ⟨w, hw, ha⟩ := hmem v hv
    exact ha.epoch ▸ h.upTo w hw
  · intro hrank e he hdone v hv hve
    obtain ⟨w, hw, ha⟩ := hmem v hv
    exact ha.stable (h.doneStable hrank e he hdone w hw (ha.epoch ▸ hve))
  · intro e he hc hsz v hv hve
    obtain ⟨w, hw, ha⟩ := hmem v hv
    exact ha.isBarrier.trans (h.sole e he hc hsz w hw (ha.epoch ▸ hve))
  · intro hz
    refine ⟨(h.empty hz).1, fun v hv => ?_⟩
    obtain ⟨w, hw, ha⟩ := hmem v hv
    exact ha.epoch ▸ (h.empty hz).2 w hw
  · intro f hf v hv hve
    obtain ⟨w, hw, ha⟩ := hmem v hv
    exact ha.finished (h.flushDone f hf w hw (ha.epoch ▸ hve))
  · exact fun hd => h.draining (hr hd)
  · intro hrank a ha v hv hve
    obtain ⟨w, hw, hadv⟩ := hmem v hv
    exact hadv.stable (h.ackedStable hrank a ha w hw (hadv.epoch ▸ hve))

theorem getElem?_set_map {st : EeState} (hget : c.writes[i]? = some w) :
    ∀ j : Nat, (c.writes.set i { w with state := st })[j]? =
      c.writes[j]?.map fun v => if j = i then { v with state := st } else v := by
  intro j
  by_cases hj : i = j
  · subst hj
    obtain ⟨hlt, -⟩ := List.getElem?_eq_some_iff.mp hget
    rw [List.getElem?_set_self hlt, hget]
    simp
  · rw [List.getElem?_set_ne hj]
    simp [Ne.symm hj]

theorem Ordered.advances_same (h : Ordered c) (hget : c.writes[j]? = some w) : Advances w w :=
  ⟨rfl, rfl, rfl, id, (h.writesOrdered.plain w (List.mem_of_getElem? hget)).2, id⟩

/-- A write moves on without being completed by that. -/
theorem Ordered.setState {r : Receiver} (h : Ordered c) (hget : c.writes[i]? = some w) (hre : after ≠ .reissue)
    (hfin : w.state ≠ .finished) (hcomp : after = .done ∨ after = .finished → w.completed = true ∨ w.isBarrier = false)
    (hr : r = .draining → c.receiver = .draining) :
    Ordered { c with writes := c.writes.set i { w with state := after }, receiver := r } := by
  refine h.setWrites (getElem?_set_map hget) ?_ ?_ hr
  · intro j v hv
    split
    · rename_i hj
      subst hj
      rw [hget] at hv
      cases hv
      exact ⟨rfl, rfl, rfl, id, hre, fun hf => absurd hf hfin⟩
    · exact h.advances_same hv
  · intro j v hv hvb hvc
    split at hvc
    · rename_i hj
      subst hj
      rw [hget] at hv
      cases hv
      simp only [PeerReq.completed, Bool.or_eq_true, decide_eq_true_eq] at hvc
      rcases hcomp hvc with hc | hc
      · exact Or.inl hc
      · rw [hc] at hvb
        cases hvb
    · exact Or.inl hvc

/-- A barrier is completed, and all before it with it. -/
theorem Ordered.completeBarrier (h : Ordered c) (hget : c.writes[i]? = some w) (hfin : w.state ≠ .finished) :
    Ordered (Connection.barrierWritten { c with writes := c.writes.set i { w with state := .done } } i) := by
  have hrel : ∀ j : Nat, ((c.writes.set i { w with state := .done }).mapIdx fun j w =>
      { w with stable := w.stable || decide (j ≤ i) })[j]? = c.writes[j]?.map fun v =>
        { (if j = i then { v with state := .done } else v) with stable := v.stable || decide (j ≤ i) } := by
    intro j
    rw [List.getElem?_mapIdx, getElem?_set_map hget, Option.map_map]
    congr 1
    funext v
    simp only [Function.comp_apply]
    split <;> rfl
  refine h.setWrites hrel ?_ ?_ (fun hd => hd)
  · intro j v hv
    split
    · rename_i hj
      subst hj
      rw [hget] at hv
      cases hv
      exact ⟨rfl, rfl, rfl, fun hs => by simp [hs], by simp, fun hf => absurd hf hfin⟩
    · have hsame := h.advances_same hv
      exact ⟨rfl, rfl, rfl, fun hs => by simp [hs], hsame.reissue, id⟩
  · intro j v hv hvb hvc
    by_cases hj : j = i
    · right
      intro k u hk hu
      simp [show k ≤ i by omega]
    · left
      rw [if_neg hj] at hvc
      exact hvc

theorem Ordered.flushed (h : Ordered c) : Ordered { c with writes := c.writes.map PeerReq.flushed } := by
  refine h.setWrites (fun j => List.getElem?_map) ?_ ?_ (fun hd => hd)
  · intro j v hv
    exact ⟨rfl, rfl, rfl, fun hs => by simp [PeerReq.flushed, hs], (h.advances_same hv).reissue, id⟩
  · exact fun j v hv hvb hvc => Or.inl hvc

theorem Ordered.dropWrite (h : Ordered c) (hdrop : c.dropWrite = some (w, c')) : Ordered c' := by
  obtain ⟨-, -, rfl⟩ := dropWrite_some hdrop
  have hmem : ∀ v ∈ c.writes.dropLast, v ∈ c.writes := fun v hv => List.dropLast_subset _ hv
  have hget : ∀ {j : Nat} {v : PeerReq}, c.writes.dropLast[j]? = some v → c.writes[j]? = some v := by
    intro j v hj
    obtain ⟨hlt, -⟩ := List.getElem?_eq_some_iff.mp hj
    rw [List.length_dropLast] at hlt
    rwa [List.getElem?_dropLast, if_pos hlt] at hj
  refine ⟨⟨?_, ?_, ?_, ?_⟩, ?_, ?_, ?_, h.containsMethod, ?_, h.flushMethod, ?_, h.flushClosed, h.openDone, ?_, ?_⟩
  · exact fun v hv => h.writesOrdered.plain v (hmem v hv)
  · exact fun v hv => h.writesOrdered.method v (hmem v hv)
  · exact h.writesOrdered.sorted.sublist (List.dropLast_sublist _)
  · exact fun j v hj hb hc k u hk hu => h.writesOrdered.barrier j v (hget hj) hb hc k u hk (hget hu)
  · exact fun v hv => h.upTo v (hmem v hv)
  · exact fun hr e he hd v hv => h.doneStable hr e he hd v (hmem v hv)
  · exact fun e he hc hs v hv => h.sole e he hc hs v (hmem v hv)
  · exact fun hz => ⟨(h.empty hz).1, fun v hv => (h.empty hz).2 v (hmem v hv)⟩
  · exact fun f hf v hv => h.flushDone f hf v (hmem v hv)
  · intro hd
    cases hd
  · exact fun hr a ha v hv => h.ackedStable hr a ha v (hmem v hv)

/-! ## Packets -/

theorem Ordered.addWrite (h : Ordered c) (hb : Basic c owesNothing) (hidle : c.receiver = .idle)
    (hclean : c.cleanedUp = false)
    (hbar : barrier = true → c.writeOrdering = .bioBarrier ∧ c.currentEpoch.epochSize = 0) :
    Ordered (c.addWrite barrier) := by
  have hopen := hb.open_of_idle hidle
  have hnotdone : c.currentEpoch.barrierInNextEpochDone = false := by
    cases hd : c.currentEpoch.barrierInNextEpochDone with
    | false => rfl
    | true =>
        rw [h.openDone hclean hd] at hopen
        cases hopen
  have hlt : ∀ e ∈ c.older, e.id < c.currentEpoch.id := fun e he =>
    (List.pairwise_append.mp hb.sorted).2.2 e he c.currentEpoch (List.mem_singleton_self _)
  have hsplit : ∀ v ∈ (c.addWrite barrier).writes,
      v ∈ c.writes ∨ v = ⟨c.currentEpoch.id, barrier, false, .resolving, false⟩ := by
    intro v hv
    rcases List.mem_append.mp hv with hv | hv
    · exact Or.inl hv
    · exact Or.inr (List.mem_singleton.mp hv)
  have hall : ∀ e ∈ (c.addWrite barrier).all, e ∈ c.older ∨ e = (c.addWrite barrier).currentEpoch := by
    intro e he
    rcases List.mem_append.mp he with he | he
    · exact Or.inl he
    · exact Or.inr (List.mem_singleton.mp he)
  refine ⟨⟨?_, ?_, ?_, ?_⟩, ?_, ?_, ?_, ?_, ?_, h.flushMethod, ?_, ?_, ?_, ?_, ?_⟩
  · intro v hv
    rcases hsplit v hv with hv | rfl
    · exact h.writesOrdered.plain v hv
    · exact ⟨rfl, by simp⟩
  · intro v hv hvb
    rcases hsplit v hv with hv | rfl
    · exact h.writesOrdered.method v hv hvb
    · exact (hbar hvb).1
  · refine List.pairwise_append.mpr ⟨h.writesOrdered.sorted, List.pairwise_singleton _ _, fun v hv u hu => ?_⟩
    cases List.mem_singleton.mp hu
    exact h.upTo v hv
  · intro j v hj hvb hvc k u hk hu
    by_cases hjl : j < c.writes.length
    · have hj' : c.writes[j]? = some v := by
        rw [← List.getElem?_append_left hjl]
        exact hj
      have hu' : c.writes[k]? = some u := by
        rw [← List.getElem?_append_left (Nat.lt_of_le_of_lt hk hjl)]
        exact hu
      exact h.writesOrdered.barrier j v hj' hvb hvc k u hk hu'
    · have hv := List.mem_of_getElem? (l := [(⟨c.currentEpoch.id, barrier, false, .resolving, false⟩ : PeerReq)])
        (i := j - c.writes.length) (a := v) (by
          rw [← List.getElem?_append_right (Nat.le_of_not_lt hjl)]
          exact hj)
      cases List.mem_singleton.mp hv
      simp [PeerReq.completed] at hvc
  · intro v hv
    rcases hsplit v hv with hv | rfl
    · exact h.upTo v hv
    · exact Nat.le_refl _
  · intro hr e he hdone v hv hve
    rcases hall e he with he | rfl
    · rcases hsplit v hv with hv | rfl
      · exact h.doneStable hr e (List.mem_append_left _ he) hdone v hv hve
      · exact absurd hve (Nat.ne_of_gt (hlt e he))
    · rw [show (c.addWrite barrier).currentEpoch.barrierInNextEpochDone = c.currentEpoch.barrierInNextEpochDone
        from rfl, hnotdone] at hdone
      cases hdone
  · intro e he hc hsz v hv hve
    rcases hall e he with he | rfl
    · rcases hsplit v hv with hv | rfl
      · exact h.sole e (List.mem_append_left _ he) hc hsz v hv hve
      · exact absurd hve (Nat.ne_of_gt (hlt e he))
    · have hz : c.currentEpoch.epochSize = 0 := by
        have : c.currentEpoch.epochSize + 1 = 1 := hsz
        omega
      have hempty := h.empty hz
      have hc' : (c.currentEpoch.containsABarrier || barrier) = true := hc
      rw [hempty.1, Bool.false_or] at hc'
      rcases hsplit v hv with hv | rfl
      · exact absurd hve (hempty.2 v hv)
      · exact hc'
  · intro e he hc
    rcases hall e he with he | rfl
    · exact h.containsMethod e (List.mem_append_left _ he) hc
    · have hc' : (c.currentEpoch.containsABarrier || barrier) = true := hc
      rcases Bool.or_eq_true_iff.mp hc' with hc' | hc'
      · exact h.containsMethod _ (currentEpoch_mem c) hc'
      · exact (hbar hc').1
  · intro hz
    cases hz
  · intro f hf v hv hve
    rcases hsplit v hv with hv | rfl
    · exact h.flushDone f hf v hv hve
    · dsimp only at hve
      subst hve
      rw [h.flushClosed hclean hf] at hopen
      cases hopen
  · exact h.flushClosed
  · exact h.openDone
  · intro hd
    cases hd
  · intro hr a ha v hv hve
    rcases hsplit v hv with hv | rfl
    · exact h.ackedStable hr a ha v hv hve
    · exact absurd hve (Nat.ne_of_gt ((hb.acked a ha).2 _ (currentEpoch_mem c)))

theorem nextIsBarrier_true (h : c.nextIsBarrier = true) :
    c.writeOrdering = .bioBarrier ∧ c.currentEpoch.epochSize = 0 := by
  simp only [Connection.nextIsBarrier, Bool.and_eq_true, decide_eq_true_eq] at h
  exact h.1

theorem setIssued_current (hb : Basic c owed) (he : e ∈ c.older) :
    (c.setIssued e.id).currentEpoch = c.currentEpoch := by
  have hlt := (List.pairwise_append.mp hb.sorted).2.2 e he c.currentEpoch (List.mem_singleton_self _)
  exact modifyId_of_ne (f := fun e => { e with barrierInNextEpochIssued := true }) (Nat.ne_of_gt hlt)

theorem Ordered.receiveData (h : Ordered c) (hb : Basic c owesNothing) (hidle : c.receiver = .idle)
    (hclean : c.cleanedUp = false) : Ordered (receiveData c) := by
  unfold PeerEpoch.receiveData
  split
  · rename_i prev hprev
    split
    · rename_i hbar
      refine h.setIssued.addWrite hb.setIssued hidle hclean fun _ => ?_
      rw [setIssued_current hb (List.mem_of_getLast? hprev)]
      exact nextIsBarrier_true hbar
    · exact h.addWrite hb hidle hclean fun hf => by cases hf
  · exact h.addWrite hb hidle hclean nextIsBarrier_true

theorem Ordered.dataNoDisk (h : Ordered c) (hidle : c.receiver = .idle) :
    Ordered { c with
      currentEpoch := { c.currentEpoch with epochSize := c.currentEpoch.epochSize + 1 }
      dataCount := c.dataCount + 1 } := by
  have hall : ∀ {P : DrbdEpoch → Prop}, (∀ e ∈ c.all, P e) →
      P { c.currentEpoch with epochSize := c.currentEpoch.epochSize + 1 } → ∀ e ∈ Connection.all { c with
        currentEpoch := { c.currentEpoch with epochSize := c.currentEpoch.epochSize + 1 }
        dataCount := c.dataCount + 1 }, P e := by
    intro P hP hcur e he
    rcases List.mem_append.mp he with he | he
    · exact hP e (List.mem_append_left _ he)
    · cases List.mem_singleton.mp he
      exact hcur
  refine ⟨h.writesOrdered, h.upTo, fun hr => ?_, ?_, ?_, fun hz => (by cases hz), h.flushMethod, h.flushDone,
    h.flushClosed, h.openDone, fun hd => (by rw [hidle] at hd; cases hd), h.ackedStable⟩
  · exact hall (h.doneStable hr) (h.doneStable hr c.currentEpoch (currentEpoch_mem c))
  · refine hall h.sole fun hc hsz => ?_
    have hz : c.currentEpoch.epochSize = 0 := by
      have : c.currentEpoch.epochSize + 1 = 1 := hsz
      omega
    have hfalse := (h.empty hz).1
    rw [show c.currentEpoch.containsABarrier = true from hc] at hfalse
    cases hfalse
  · exact hall h.containsMethod (h.containsMethod c.currentEpoch (currentEpoch_mem c))

theorem Ordered.barrierAllocated (h : Ordered c) (hb : Basic c owesNothing) : Ordered (barrierAllocated c) := by
  unfold PeerEpoch.barrierAllocated
  split
  · exact ⟨h.writesOrdered, h.upTo, h.doneStable, h.sole, h.containsMethod, h.empty, h.flushMethod, h.flushDone,
      h.flushClosed, h.openDone, fun hd => (by cases hd), h.ackedStable⟩
  · have hnamed : ∀ w ∈ c.writes, w.epoch < c.nextId := fun w hw =>
      hb.keysNamed (w.epoch, w.state) (List.mem_map_of_mem hw)
    have hall : ∀ {P : DrbdEpoch → Prop}, (∀ e ∈ c.all, P e) → P (DrbdEpoch.fresh c.nextId) →
        ∀ e ∈ (c.older ++ [c.currentEpoch]) ++ [DrbdEpoch.fresh c.nextId], P e := by
      intro P hP hnew e he
      rcases List.mem_append.mp he with he | he
      · exact hP e he
      · cases List.mem_singleton.mp he
        exact hnew
    refine ⟨h.writesOrdered, fun w hw => Nat.le_of_lt (hnamed w hw), fun hr => ?_, ?_, ?_, ?_, h.flushMethod,
      h.flushDone, ?_, fun _ hd => (by cases hd), fun hd => (by cases hd), h.ackedStable⟩
    · exact hall (h.doneStable hr) fun hd => by cases hd
    · exact hall h.sole fun hc => by cases hc
    · exact hall h.containsMethod fun hc => by cases hc
    · exact fun _ => ⟨rfl, fun w hw => Nat.ne_of_lt (hnamed w hw)⟩
    · intro _ hin
      obtain ⟨d, hd, hid⟩ := hb.flushLive _ hin
      have hlt := hb.named d hd
      rw [hid] at hlt
      exact absurd hlt (Nat.lt_irrefl _)

theorem Ordered.setReceiver {r : Receiver} (h : Ordered c) (hr : r ≠ .draining) : Ordered { c with receiver := r } :=
  ⟨h.writesOrdered, h.upTo, h.doneStable, h.sole, h.containsMethod, h.empty, h.flushMethod, h.flushDone,
    h.flushClosed, h.openDone, fun hd => absurd hd hr, h.ackedStable⟩

/-! ## Flushes -/

/-- A flush was issued without a change of the method, so all that was completed is stable. -/
theorem issueFlush_cases (h : (c.issueFlush failed).bumped = false) : c.bumped = false ∧
    (c.writeOrdering.rank < 2 ∧ c.issueFlush failed = c ∨
      2 ≤ c.writeOrdering.rank ∧ c.issueFlush failed = { c with writes := c.writes.map PeerReq.flushed }) := by
  have hrank : WriteOrdering.bdevFlush.rank = 2 := rfl
  unfold Connection.issueFlush at h ⊢
  split
  · rename_i hlt
    rw [if_pos hlt] at h
    exact ⟨h, Or.inl ⟨hlt, rfl⟩⟩
  · rename_i hge
    rw [if_neg hge] at h
    split
    · -- A failed flush always changes the method.
      rename_i allowed
      simp only [Connection.bumpWriteOrdering] at h
      cases hwo : c.writeOrdering <;> cases allowed <;>
        simp [hwo, WriteOrdering.rank] at h hge
    · exact ⟨h, Or.inr ⟨by omega, rfl⟩⟩

theorem Ordered.flushAfterEpoch (h : Ordered c) (hb : Basic c owesNothing)
    (hbumped : (c.issueFlush failed).bumped = false)
    (hcompleted : ∀ w ∈ c.writes, w.epoch = id → w.completed = true)
    (hhave : c.cleanedUp = false → c.currentEpoch.id = id → c.currentEpoch.haveBarrierNumber = true)
    (hdrain : c.receiver = .draining → c.currentEpoch.id ≠ id) : Ordered (drbdFlushAfterEpoch c id failed) := by
  have hb' : Basic (c.issueFlush failed) owesNothing := hb.issueFlush
  unfold drbdFlushAfterEpoch
  obtain ⟨-, ⟨hlow, heq⟩ | ⟨-, heq⟩⟩ := issueFlush_cases hbumped
  · rw [heq] at hb' ⊢
    exact h.barrierDone hb' (fun hr => absurd hlow (Nat.not_lt.mpr hr)) hhave hdrain
  · rw [heq] at hb' ⊢
    refine h.flushed.barrierDone hb' (fun _ w hw hwe => ?_) hhave hdrain
    obtain ⟨v, hv, rfl⟩ := List.mem_map.mp hw
    simp [PeerReq.flushed, hcompleted v hv hwe]

theorem drbdFlushAfterEpoch_bumped : (drbdFlushAfterEpoch c id failed).bumped = (c.issueFlush failed).bumped :=
  drbdMayFinishEpoch_method.2

theorem Ordered.wFlush (h : Ordered c) (hb : Basic c owesNothing) (hstep : wFlush c failed cleanup = some c')
    (hbumped : c'.bumped = false) : Ordered c' := by
  unfold PeerEpoch.wFlush at hstep
  split at hstep
  · cases hstep
  · rename_i id rest hf
    cases hstep
    have hin : id ∈ c.flushWork := by simp [hf]
    have hpop : ∀ {d : Connection} {t : List Nat}, Ordered d → Basic d owesNothing → d.flushWork = id :: t →
        Ordered (drbdMayFinishEpoch { d with flushWork := t } id .put cleanup) := by
      intro d t hd hdb hdf
      have hpopped : Ordered { d with flushWork := t } := by
        refine ⟨hd.writesOrdered, hd.upTo, hd.doneStable, hd.sole, hd.containsMethod, hd.empty, fun _ => ?_,
          fun f hf => ?_, fun hc hin => ?_, hd.openDone, hd.draining, hd.ackedStable⟩
        · exact hd.flushMethod (by simp [hdf])
        · exact hd.flushDone f (by rw [hdf]; exact List.mem_cons_of_mem id hf)
        · exact hd.flushClosed hc (by rw [hdf]; exact List.mem_cons_of_mem id hin)
      exact hpopped.put (hdb.popFlush hdf)
    split
    · rw [hf]
      exact hpop h hb hf
    · rename_i hissued
      have hbd : Basic (drbdFlushAfterEpoch (c.setIssued id) id failed) owesNothing := hb.setIssued.flushAfterEpoch
      obtain ⟨t, ht⟩ := @flushAfterEpoch_flushWork (c.setIssued id) id failed
      rw [show (c.setIssued id).flushWork = c.flushWork from rfl, hf, List.cons_append] at ht
      rw [ht]
      refine hpop ?_ hbd ht
      have hsame : (c.setIssued id).currentEpoch.id = c.currentEpoch.id :=
        modifyId_id (f := fun e => { e with barrierInNextEpochIssued := true }) fun e => rfl
      have hhave : (c.setIssued id).currentEpoch.haveBarrierNumber = c.currentEpoch.haveBarrierNumber := by
        simp only [Connection.setIssued, Connection.modify, modifyId]
        split <;> rfl
      refine h.setIssued.flushAfterEpoch hb.setIssued ?_ (fun w hw hwe => ?_) (fun hc hid => ?_) (fun hd => ?_)
      · rw [if_neg hissued, drbdMayFinishEpoch_method.2] at hbumped
        exact drbdFlushAfterEpoch_bumped.symm.trans hbumped
      · simp [PeerReq.completed, h.flushDone id hin w hw hwe]
      · rw [hhave]
        exact h.flushClosed hc (by rw [← hsame, hid]; exact hin)
      · have hm := h.flushMethod (List.ne_nil_of_mem hin)
        rcases (h.draining hd).1 with hm' | hm'
        · rw [hm] at hm'
          cases hm'
        · rw [hm] at hm'
          cases hm'

/-- The receiver flushes what was completed while it waited. -/
theorem Ordered.barrierDrained (h : Ordered c) (hb : Basic c owesNothing) (hdrain : c.receiver = .draining)
    (hnone : ∀ w ∈ c.writes, w.state ≠ .active) (hbumped : (barrierDrained c failed).bumped = false) :
    Ordered (barrierDrained c failed) := by
  have hb' : Basic { c with receiver := .allocating } owesNothing :=
    hb.setReceiver (by simp [hdrain]) (fun _ => Or.inr rfl) (fun _ => Or.inl hdrain) (by simp)
  have hbump : (Connection.issueFlush { c with receiver := .allocating } failed).bumped = false := by
    rw [← drbdFlushAfterEpoch_bumped]
    unfold PeerEpoch.barrierDrained at hbumped
    dsimp only at hbumped
    split at hbumped <;> exact hbumped
  have hfin : Ordered (drbdFlushAfterEpoch { c with receiver := .allocating } c.currentEpoch.id failed) := by
    refine (h.setReceiver (by simp)).flushAfterEpoch hb' hbump (fun w hw _ => ?_) (fun hc _ => ?_)
      (fun hd => by cases hd)
    · have hk : (w.epoch, w.state) ∈ c.keys := List.mem_map_of_mem hw
      have h₁ := hnone w hw
      have h₂ := (h.writesOrdered.plain w hw).2
      have h₃ := hb.conflicts _ hk
      have h₄ : w.state ≠ .resolving := by
        intro hr
        obtain ⟨j, hj⟩ := List.getElem?_of_mem hk
        have := (hb.resolving j _ hj hr).1
        rw [hdrain] at this
        cases this
      cases hs : w.state <;> simp_all [PeerReq.completed]
    · exact ((h.draining hdrain).2 hc).1
  unfold PeerEpoch.barrierDrained
  dsimp only
  split
  · exact hfin.setReceiver (by simp)
  · exact hfin

/-! ## A step -/

/-- A current epoch that keeps its name keeps its flags through the loop. -/
theorem drbdMayFinishEpoch_current (hn : c.currentEpoch.id < c.nextId)
    (h : (drbdMayFinishEpoch c id ev cleanup).currentEpoch.id = c.currentEpoch.id) :
    SameFlags (c.afterEvent id ev cleanup).currentEpoch (drbdMayFinishEpoch c id ev cleanup).currentEpoch := by
  have hP : c.currentEpoch.id < (drbdMayFinishEpoch c id ev cleanup).nextId ∧
      ((drbdMayFinishEpoch c id ev cleanup).currentEpoch.id = c.currentEpoch.id →
        SameFlags (c.afterEvent id ev cleanup).currentEpoch (drbdMayFinishEpoch c id ev cleanup).currentEpoch) := by
    refine drbdMayFinishEpoch_rule (P := fun d => c.currentEpoch.id < d.nextId ∧
      (d.currentEpoch.id = c.currentEpoch.id → SameFlags (c.afterEvent id ev cleanup).currentEpoch d.currentEpoch))
      ?_ ?_ ?_ ⟨hn, fun _ => ⟨SameEpoch.refl _, rfl, rfl⟩⟩
    · intro d e rest hd _ _
      rw [destroyOldest_same.2.1, destroyOldest_rest.2.2]
      exact hd
    · intro d hd _
      refine ⟨hd.1, ?_⟩
      simp only [Connection.queueFlush, Connection.modify, modifyId]
      split
      · intro hid
        obtain ⟨⟨h₁, h₂, h₃, h₄⟩, h₅, h₆⟩ := hd.2 hid
        exact ⟨⟨h₁, h₂, h₃, h₄⟩, h₅, h₆⟩
      · exact hd.2
    · intro d hd _ _
      refine ⟨Nat.lt_succ_of_lt hd.1, fun hid => ?_⟩
      have hnew : d.nextId = c.currentEpoch.id := hid
      have := hd.1
      omega
  exact hP.2 h

theorem Ordered.receiveBarrier (h : Ordered c) (hb : Basic c owesNothing) (hidle : c.receiver = .idle)
    (hclean : c.cleanedUp = false) (hsize : c.currentEpoch.epochSize ≠ 0) : Ordered (receiveBarrier c nr) := by
  have hfin := (h.noteBarrier nr hsize).finish (hb.noteBarrier nr hidle hclean hsize)
  have hnotdone : c.currentEpoch.barrierInNextEpochDone = false := by
    cases hd : c.currentEpoch.barrierInNextEpochDone with
    | false => rfl
    | true =>
        have := h.openDone hclean hd
        rw [hb.open_of_idle hidle] at this
        cases this
  unfold PeerEpoch.receiveBarrier
  dsimp only
  split
  · exact hfin.setReceiver (by simp)
  · rename_i hid
    have hid : (drbdMayFinishEpoch (c.noteBarrier nr) c.currentEpoch.id .gotBarrierNr false).currentEpoch.id =
        c.currentEpoch.id := by simpa using hid
    have hn : c.currentEpoch.id < c.nextId := hb.named _ (currentEpoch_mem c)
    have hflags := drbdMayFinishEpoch_current (c := c.noteBarrier nr) hn hid
    have hcur : ((c.noteBarrier nr).afterEvent c.currentEpoch.id .gotBarrierNr false).currentEpoch =
        applyEvent c.writeOrdering (c.currentEpoch.id = c.currentEpoch.id) .gotBarrierNr
          { c.currentEpoch with barrierNr := nr } := modifyId_of_eq rfl
    rw [hcur] at hflags
    split
    · exact hfin
    · rename_i hm
      have hi := @Ordered.setIssued _ c.currentEpoch.id hfin
      refine ⟨hi.writesOrdered, hi.upTo, hi.doneStable, hi.sole, hi.containsMethod, hi.empty, hi.flushMethod,
        hi.flushDone, hi.flushClosed, hi.openDone, fun _ => ⟨?_, fun _ => ?_⟩, hi.ackedStable⟩
      · change (drbdMayFinishEpoch (c.noteBarrier nr) c.currentEpoch.id .gotBarrierNr false).writeOrdering = .drainIo ∨
          (drbdMayFinishEpoch (c.noteBarrier nr) c.currentEpoch.id .gotBarrierNr false).writeOrdering = .bdevFlush
        cases hw : (drbdMayFinishEpoch (c.noteBarrier nr) c.currentEpoch.id .gotBarrierNr false).writeOrdering
        all_goals simp_all
      · have hset : SameFlags (drbdMayFinishEpoch (c.noteBarrier nr) c.currentEpoch.id .gotBarrierNr false).currentEpoch
            ((drbdMayFinishEpoch (c.noteBarrier nr) c.currentEpoch.id .gotBarrierNr false).setIssued
              c.currentEpoch.id).currentEpoch :=
          SameFlags.modifyId _ (f := fun e => { e with barrierInNextEpochIssued := true })
            (fun e => ⟨⟨rfl, rfl, rfl, rfl⟩, rfl, rfl⟩) _
        exact ⟨hset.haveBarrierNumber.trans (hflags.haveBarrierNumber.trans rfl),
          hset.barrierInNextEpochDone.trans (hflags.barrierInNextEpochDone.trans hnotdone)⟩

theorem bumpWriteOrdering_same {wo allowed : WriteOrdering} (h : (c.bumpWriteOrdering wo allowed).bumped = false) :
    c.bumpWriteOrdering wo allowed = c := by
  simp only [Connection.bumpWriteOrdering, ne_eq, decide_not, Bool.or_eq_false_iff, Bool.not_eq_eq_eq_not,
    Bool.not_false,
    decide_eq_true_eq] at h
  unfold Connection.bumpWriteOrdering
  obtain ⟨writeOrdering, older, currentEpoch, epochs, writes, flushWork, receiver, nextId, acks, barriers, dataCount,
    cleanedUp, bumped⟩ := c
  obtain ⟨h₁, h₂⟩ := h
  simp only [h₂, ne_eq, not_true_eq_false, decide_false, Bool.or_false]

theorem Ordered.endio (h : Ordered c) (hstep : endio c i failed = some c') (hbumped : c'.bumped = false) :
    Ordered c' := by
  unfold PeerEpoch.endio at hstep
  split at hstep
  · cases hstep
  · rename_i w d hmove
    obtain ⟨hget, hstate, rfl⟩ := moveWrite_some hmove
    have hmem := List.mem_of_getElem? hget
    have hplain : w.resubmitted = false := (h.writesOrdered.plain w hmem).1
    have hset : w.isBarrier = false → Ordered { c with writes := c.writes.set i { w with state := .done } } :=
      fun hnb => h.setState hget (by simp) (by simp [hstate]) (fun _ => Or.inr hnb) (fun hd => hd)
    split at hstep
    · cases hstep
      split
      · exact h.completeBarrier hget (by simp [hstate])
      · rename_i hnb
        exact hset (by simpa [hplain] using hnb)
    · rename_i allowed
      split at hstep
      · rename_i hbar
        cases hstep
        have hm := h.writesOrdered.method w hmem (by simpa [hplain] using hbar)
        have hsame := bumpWriteOrdering_same hbumped
        have hwo := congrArg Connection.writeOrdering hsame
        rw [hm] at hwo
        simp only [Connection.bumpWriteOrdering, hm] at hwo
        cases allowed <;> simp [WriteOrdering.rank] at hwo
      · rename_i hnb
        cases hstep
        exact hset (by simpa [hplain] using hnb)

theorem Basic.previous_lt {prev : Nat} (hb : Basic c owed) (h : previousEpoch c.all id = some prev) :
    prev < id ∧ prev < c.currentEpoch.id := by
  obtain ⟨pre, e, e', post, hall, rfl, rfl⟩ := previousEpoch_split h
  have hsorted := hb.sorted
  rw [hall] at hsorted
  have htail := (List.pairwise_append.mp hsorted).2.1
  have hfirst := (List.pairwise_cons.mp htail).1
  refine ⟨hfirst e' List.mem_cons_self, ?_⟩
  have hlast : c.currentEpoch ∈ e' :: post := by
    have hl : c.all.getLast? = some c.currentEpoch := by simp [Connection.all]
    rw [hall] at hl
    have hl' : (e' :: post).getLast? = some c.currentEpoch := by
      simpa [List.getLast?_append, List.getLast?_cons_cons] using hl
    exact List.mem_of_getLast? hl'
  exact hfirst _ hlast

theorem Ordered.eEndBlock (h : Ordered c) (hb : Basic c owesNothing) (hstep : eEndBlock c i cleanup = some c') :
    Ordered c' := by
  unfold PeerEpoch.eEndBlock at hstep
  split at hstep
  · cases hstep
  · rename_i w _ hmove
    obtain ⟨hget, hstate, -⟩ := moveWrite_some hmove
    cases hstep
    have hcomp : w.completed = true := by simp [PeerReq.completed, hstate]
    have hset : ∀ {d : Connection}, Ordered d → Basic d owesNothing → d.writes = c.writes → Ordered (drbdMayFinishEpoch
        { d with writes := d.writes.set i { w with state := .finished } } w.epoch .put cleanup) := by
      intro d hd hdb hw
      have hget' : d.writes[i]? = some w := hw ▸ hget
      refine (hd.setState hget' (by simp) (by simp [hstate]) (fun _ => Or.inl hcomp) (fun hdr => hdr)).put ?_
      exact hdb.setKey (keys_getElem? hget') (by simp [hstate]) keys_set (by simp) (by simp)
        (Or.inl ⟨rfl, by simp [hstate]⟩)
    split
    · rename_i prev hprev
      have hisb : w.isBarrier = true := by
        by_contra hnb
        simp [hnb] at hprev
      rw [if_pos hisb] at hprev
      obtain ⟨hlt, hcur⟩ := hb.previous_lt hprev
      refine hset (h.barrierDone hb (fun _ v hv hve => ?_) (fun _ hid => ?_) (fun _ => Nat.ne_of_gt hcur))
        hb.barrierDone
        drbdMayFinishEpoch_writes
      · -- The writes of the epoch before came before the barrier.
        obtain ⟨j, hj⟩ := List.getElem?_of_mem hv
        refine h.writesOrdered.barrier i w hget hisb hcomp j v ?_ hj
        by_contra hji
        obtain ⟨hi, hiw⟩ := List.getElem?_eq_some_iff.mp hget
        obtain ⟨hjl, hjv⟩ := List.getElem?_eq_some_iff.mp hj
        have := List.pairwise_iff_getElem.mp h.writesOrdered.sorted i j hi hjl (by omega)
        rw [hiw, hjv] at this
        omega
      · omega
    · exact hset h hb rfl

theorem bumped_of_finish (h : (drbdMayFinishEpoch c id ev cleanup).bumped = false) : c.bumped = false :=
  drbdMayFinishEpoch_method.2.symm.trans h

/-- A change of the method is never forgotten. -/
theorem step_bumped {ev : Event} (hstep : step c ev = some c') (h : c'.bumped = false) : c.bumped = false := by
  cases ev with
  | data =>
      simp only [step, receiveData] at hstep
      split at hstep
      · cases hstep
        split at h
        · split at h <;> exact h
        · exact h
      · cases hstep
  | dataNoDisk =>
      simp only [step] at hstep
      split at hstep
      · cases hstep
        exact h
      · cases hstep
  | submit | supersede =>
      obtain ⟨⟨w, d⟩, hres, rfl⟩ := Option.map_eq_some_iff.mp hstep
      obtain ⟨-, -, -, rfl⟩ := resolve_some hres
      exact h
  | interrupted =>
      obtain ⟨⟨w, d⟩, hdrop, rfl⟩ := Option.map_eq_some_iff.mp hstep
      obtain ⟨-, -, rfl⟩ := dropWrite_some hdrop
      have := bumped_of_finish h
      exact this
  | sendSuperseded i | reissue i =>
      obtain ⟨⟨w, d⟩, hmove, rfl⟩ := Option.map_eq_some_iff.mp hstep
      obtain ⟨-, -, rfl⟩ := moveWrite_some hmove
      exact h
  | reissueFailed i =>
      obtain ⟨⟨w, d⟩, hmove, rfl⟩ := Option.map_eq_some_iff.mp hstep
      obtain ⟨-, -, rfl⟩ := moveWrite_some hmove
      have := bumped_of_finish h
      exact this
  | endio i failed =>
      simp only [step, endio] at hstep
      split at hstep
      · cases hstep
      · rename_i w d hmove
        obtain ⟨-, -, rfl⟩ := moveWrite_some hmove
        split at hstep
        · cases hstep
          split at h <;> exact h
        · split at hstep
          · cases hstep
            exact (Bool.or_eq_false_iff.mp h).1
          · cases hstep
            exact h
  | endBlock i cancel =>
      simp only [step, eEndBlock] at hstep
      split at hstep
      · cases hstep
      · cases hstep
        rw [drbdMayFinishEpoch_method.2] at h
        split at h
        · exact bumped_of_finish h
        · exact h
  | flush failed cleanup =>
      simp only [step, wFlush] at hstep
      split at hstep
      · cases hstep
      · cases hstep
        rw [drbdMayFinishEpoch_method.2] at h
        split at h
        · exact h
        · have hf : ((c.setIssued _).issueFlush failed).bumped = false := drbdFlushAfterEpoch_bumped.symm.trans h
          exact (issueFlush_cases hf).1
  | barrier nr =>
      simp only [step, receiveBarrier] at hstep
      split at hstep
      · cases hstep
        split at h
        · have := bumped_of_finish h
          exact this
        · split at h
          · have := bumped_of_finish h
            exact this
          · have := bumped_of_finish h
            exact this
      · cases hstep
  | drained failed =>
      simp only [step, barrierDrained] at hstep
      split at hstep
      · cases hstep
        have hf : (Connection.issueFlush { c with receiver := .allocating } failed).bumped = false := by
          split at h <;> exact drbdFlushAfterEpoch_bumped.symm.trans h
        exact (issueFlush_cases hf).1
      · cases hstep
  | allocated =>
      simp only [step, barrierAllocated] at hstep
      split at hstep
      · cases hstep
        split at h <;> exact h
      · cases hstep
  | bump wo allowed =>
      cases hstep
      exact (Bool.or_eq_false_iff.mp h).1

theorem step_ordered {ev : Event} (h : Ordered c) (hb : Basic c owesNothing) (hord : Orderly c ev)
    (hstep : step c ev = some c') (hbumped : c'.bumped = false) : Ordered c' := by
  cases ev with
  | data =>
      simp only [step] at hstep
      split at hstep
      · cases hstep
        exact h.receiveData hb (by assumption) hord
      · cases hstep
  | dataNoDisk =>
      simp only [step] at hstep
      split at hstep
      · cases hstep
        exact h.dataNoDisk (by assumption)
      · cases hstep
  | submit =>
      obtain ⟨⟨w, d⟩, hres, rfl⟩ := Option.map_eq_some_iff.mp hstep
      obtain ⟨-, hget, hstate, rfl⟩ := resolve_some hres
      exact h.setState hget (by simp) (by simp [hstate]) (by simp) (by simp)
  | supersede => exact absurd hord id
  | interrupted =>
      obtain ⟨⟨w, d⟩, hdrop, rfl⟩ := Option.map_eq_some_iff.mp hstep
      exact (h.dropWrite hdrop).put (hb.dropWrite hdrop)
  | sendSuperseded i =>
      obtain ⟨⟨w, d⟩, hmove, rfl⟩ := Option.map_eq_some_iff.mp hstep
      obtain ⟨hget, hstate, -⟩ := moveWrite_some hmove
      exact absurd hstate (hb.conflicts _ (List.mem_of_getElem? (keys_getElem? hget)))
  | endio i failed => exact h.endio hstep hbumped
  | reissue i =>
      obtain ⟨⟨w, d⟩, hmove, rfl⟩ := Option.map_eq_some_iff.mp hstep
      obtain ⟨hget, hstate, -⟩ := moveWrite_some hmove
      exact absurd hstate (h.writesOrdered.plain w (List.mem_of_getElem? hget)).2
  | reissueFailed i =>
      obtain ⟨⟨w, d⟩, hmove, rfl⟩ := Option.map_eq_some_iff.mp hstep
      obtain ⟨hget, hstate, -⟩ := moveWrite_some hmove
      exact absurd hstate (h.writesOrdered.plain w (List.mem_of_getElem? hget)).2
  | endBlock i cancel => exact h.eEndBlock hb hstep
  | flush failed cleanup => exact h.wFlush hb hstep hbumped
  | barrier nr =>
      simp only [step] at hstep
      split at hstep
      · cases hstep
        exact h.receiveBarrier hb (by assumption) hord.1 hord.2
      · cases hstep
  | drained failed =>
      simp only [step, Bool.and_eq_true, decide_eq_true_eq] at hstep
      split at hstep
      · rename_i hd
        cases hstep
        exact h.barrierDrained hb hd.1 (by simpa using hd.2) hbumped
      · cases hstep
  | allocated =>
      simp only [step] at hstep
      split at hstep
      · cases hstep
        exact h.barrierAllocated hb
      · cases hstep
  | bump wo allowed =>
      cases hstep
      rw [bumpWriteOrdering_same hbumped]
      exact h

end Drbd.PeerEpoch
