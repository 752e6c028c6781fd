import Drbd.PeerEpoch.Lemmas.Ordered

/-!
# No ack is forgotten

While the method does not change and nothing is cleaned up, an epoch that could be finished is finished, and one
that only waits for its flush or for a barrier in the next epoch has somebody who will finish it.
-/

namespace Drbd.PeerEpoch

variable {c c' : Connection} {e : DrbdEpoch} {rest : List DrbdEpoch} {id i j nr prev : Nat} {cleanup barrier : Bool}
  {ev : EpochEvent} {w : PeerReq} {before after : EeState} {failed : Option WriteOrdering} {wo : WriteOrdering}
  {owed : Nat → Nat}

/-- The methods where the receiver itself waits for the writes of an epoch. -/
def Drains (wo : WriteOrdering) : Prop :=
  wo = .drainIo ∨ wo = .bdevFlush

/-- Who will set the DONE flag. -/
structure Waits (c : Connection) : Prop where
  oldDone : Drains c.writeOrdering → ∀ e ∈ c.older, e.barrierInNextEpochDone = true
  pending : c.writeOrdering = .bioBarrier → ∀ e ∈ c.all, e.barrierInNextEpochIssued = true →
    e.barrierInNextEpochDone = false → ∃ w ∈ c.writes, w.isBarrier = true ∧ w.state ≠ .finished ∧
      previousEpoch c.all w.epoch = some e.id

structure Alive (c : Connection) : Prop where
  waits : Waits c
  settled : verdict c.writeOrdering false c.oldest = .live
  allocDone : Drains c.writeOrdering → c.receiver = .allocating → c.currentEpoch.haveBarrierNumber = true →
    c.currentEpoch.barrierInNextEpochDone = true

theorem alive_connected (wo : WriteOrdering) : Alive (connected wo) := by
  refine ⟨⟨?_, ?_⟩, verdict_of_empty rfl, ?_⟩
  all_goals simp [connected, Connection.all, DrbdEpoch.fresh]

/-! ## The loop -/

theorem modify_oldest {f : DrbdEpoch → DrbdEpoch} : (c.modify id f).oldest = modifyId id f c.oldest := by
  cases h : c.older with
  | nil => simp [Connection.oldest, Connection.modify, h]
  | cons e rest => simp [Connection.oldest, Connection.modify, h]

theorem finishOldest_settled {older : List DrbdEpoch} (hold : c.older = older) :
    verdict (finishOldest false older c).writeOrdering false (finishOldest false older c).oldest = .live := by
  have hqueue : ∀ d : Connection, verdict (d.queueFlush d.oldest.id).writeOrdering false
      (d.queueFlush d.oldest.id).oldest = .live := by
    intro d
    have hold' : (d.queueFlush d.oldest.id).oldest = { d.oldest with active := d.oldest.active + 1 } := by
      change (d.modify d.oldest.id fun e => { e with active := e.active + 1 }).oldest = _
      rw [modify_oldest, modifyId_of_eq rfl]
    rw [hold']
    exact verdict_of_active (Nat.succ_ne_zero _)
  induction older generalizing c with
  | nil =>
      unfold finishOldest
      have hcur := oldest_of_nil hold
      split
      · rename_i hv
        rw [hcur]
        exact hv
      · have := hqueue c
        rwa [hcur] at this
      · rw [oldest_of_nil (by simpa using hold)]
        exact verdict_of_empty rfl
  | cons e rest ih =>
      unfold finishOldest
      have he := oldest_of_cons hold
      split
      · rename_i hv
        rw [he]
        exact hv
      · have := hqueue c
        rwa [he] at this
      · exact ih rfl

/-- After the event, the oldest epoch needs nothing more. -/
theorem drbdMayFinishEpoch_settled (h : c.oldest.id ≠ id → verdict c.writeOrdering false c.oldest = .live) :
    verdict (drbdMayFinishEpoch c id ev false).writeOrdering false (drbdMayFinishEpoch c id ev false).oldest =
      .live := by
  have hold : (c.afterEvent id ev false).oldest =
      modifyId id (applyEvent c.writeOrdering (id = c.currentEpoch.id) ev) c.oldest := modify_oldest
  have hid : (c.afterEvent id ev false).oldest.id = c.oldest.id := by
    rw [hold]
    exact modifyId_id fun e => applyEvent_id
  rw [drbdMayFinishEpoch_eq]
  split
  · exact finishOldest_settled rfl
  · rename_i hne
    rw [hid] at hne
    rw [hold, modifyId_of_ne hne]
    exact h hne

theorem Waits.destroyOldest (h : Waits c) (hb : Basic c owed) (hold : c.older = e :: rest) :
    Waits (c.destroyOldest cleanup e rest) := by
  obtain ⟨hws, hwo, -⟩ := @destroyOldest_rest c e rest cleanup
  have hall := all_of_older hold
  refine ⟨?_, ?_⟩
  · rw [hwo]
    exact fun hm d hd => h.oldDone hm d (by rw [hold]; exact List.mem_cons_of_mem e hd)
  · rw [hwo, destroyOldest_all, hws]
    intro hm d hd hi hdone
    have hmem : d ∈ c.all := by
      rw [hall]
      exact List.mem_cons_of_mem e hd
    obtain ⟨w, hw, hwb, hws, hprev⟩ := h.pending hm d hmem hi hdone
    refine ⟨w, hw, hwb, hws, ?_⟩
    rw [hall] at hprev
    have hsorted := hb.sorted
    rw [hall] at hsorted
    have hlt := (List.pairwise_cons.mp hsorted).1 d hd
    exact previousEpoch_tail hprev (Nat.ne_of_gt hlt)

theorem Waits.recycle (h : Waits c) (hold : c.older = []) : Waits (c.recycle cleanup) := by
  obtain ⟨hws, hwo⟩ := @recycle_rest c cleanup
  refine ⟨?_, ?_⟩
  · rw [hwo, recycle_older]
    exact h.oldDone
  · intro _ d hd hi
    rw [all_of_nil (by simpa using hold)] at hd
    cases List.mem_singleton.mp hd
    cases hi

/-- Epochs are updated, and those that get the ISSUED flag have the DONE flag or a barrier that waits. -/
theorem Waits.update {g : DrbdEpoch → DrbdEpoch} {d : Connection} (h : Waits c) (hid : ∀ e, (g e).id = e.id)
    (hdone : ∀ e, e.barrierInNextEpochDone = true → (g e).barrierInNextEpochDone = true)
    (hissued : ∀ e ∈ c.all, (g e).barrierInNextEpochIssued = true → (g e).barrierInNextEpochDone = false →
      e.barrierInNextEpochIssued = true)
    (holder : d.older = c.older.map g) (hcur : d.currentEpoch = g c.currentEpoch)
    (hwo : d.writeOrdering = c.writeOrdering)
    (hws : ∀ w ∈ c.writes, ∃ v ∈ d.writes, v.isBarrier = w.isBarrier ∧ v.epoch = w.epoch ∧
      (w.state ≠ .finished → v.state ≠ .finished)) : Waits d := by
  have hall : d.all = c.all.map g := by simp [Connection.all, holder, hcur]
  refine ⟨?_, ?_⟩
  · rw [hwo, holder]
    intro hm x hx
    obtain ⟨e, he, rfl⟩ := List.mem_map.mp hx
    exact hdone e (h.oldDone hm e he)
  · rw [hwo, hall]
    intro hm x hx hi hnd
    obtain ⟨e, he, rfl⟩ := List.mem_map.mp hx
    have hnd' : e.barrierInNextEpochDone = false := by
      cases hb : e.barrierInNextEpochDone with
      | false => rfl
      | true =>
          rw [hdone e hb] at hnd
          cases hnd
    obtain ⟨w, hw, hwb, hst, hprev⟩ := h.pending hm e he (hissued e he hi hnd) hnd'
    obtain ⟨v, hv, hvb, hve, hvs⟩ := hws w hw
    refine ⟨v, hv, hvb.trans hwb, hvs hst, ?_⟩
    rw [previousEpoch_map hid, hid, hve]
    exact hprev

theorem sameWrites (c : Connection) : ∀ w ∈ c.writes, ∃ v ∈ c.writes, v.isBarrier = w.isBarrier ∧ v.epoch = w.epoch ∧
    (w.state ≠ .finished → v.state ≠ .finished) :=
  fun w hw => ⟨w, hw, rfl, rfl, fun hs => hs⟩

theorem Waits.queueFlush (h : Waits c) : Waits (c.queueFlush id) := by
  refine h.update (g := modifyId id fun e => { e with active := e.active + 1 }) (fun e => modifyId_id fun _ => rfl)
    (fun e hd => ?_) (fun e _ hi _ => ?_) rfl rfl rfl (sameWrites c)
  · unfold modifyId
    split <;> exact hd
  · unfold modifyId at hi
    split at hi <;> exact hi

theorem Waits.finish (h : Waits (c.afterEvent id ev cleanup)) (hb : Basic (c.afterEvent id ev cleanup) owesNothing) :
    Waits (drbdMayFinishEpoch c id ev cleanup) := by
  have hP : Waits (drbdMayFinishEpoch c id ev cleanup) ∧ Basic (drbdMayFinishEpoch c id ev cleanup) owesNothing ∧
      (cleanup = true → (drbdMayFinishEpoch c id ev cleanup).cleanedUp = true) := by
    refine drbdMayFinishEpoch_rule
      (P := fun c => Waits c ∧ Basic c owesNothing ∧ (cleanup = true → c.cleanedUp = true)) ?_ ?_ ?_
      ⟨h, hb, fun hc => by simp [Connection.afterEvent, hc]⟩
    · intro c e rest hc hold hv
      refine ⟨hc.1.destroyOldest hc.2.1 hold, hc.2.1.destroyOldest hold hv hc.2.2, ?_⟩
      rw [destroyOldest_same.2.2.2.1]
      exact hc.2.2
    · exact fun c hc _ => ⟨hc.1.queueFlush, hc.2.1.queueFlush, hc.2.2⟩
    · intro c hc hold hv
      refine ⟨hc.1.recycle hold, hc.2.1.recycle hold hv hc.2.2, ?_⟩
      rw [recycle_same.2.2.1]
      exact hc.2.2
  exact hP.1

/-- An event keeps ISSUED as it is and never clears DONE. -/
theorem Waits.afterEvent (h : Waits c) : Waits (c.afterEvent id ev cleanup) := by
  refine h.update (g := modifyId id (applyEvent c.writeOrdering (id = c.currentEpoch.id) ev))
    (fun e => modifyId_id fun _ => applyEvent_id) (fun e hd => ?_) (fun e _ hi _ => ?_) rfl rfl rfl (sameWrites c)
  · unfold modifyId
    split
    · cases ev
      · exact hd
      · exact hd
      · rfl
    · exact hd
  · unfold modifyId at hi
    split at hi
    · cases ev <;> exact hi
    · exact hi

theorem Waits.sameEpochs {d : Connection} (h : Waits c) (holder : d.older = c.older)
    (hcur : d.currentEpoch = c.currentEpoch) (hwo : d.writeOrdering = c.writeOrdering)
    (hws : ∀ w ∈ c.writes, ∃ v ∈ d.writes, v.isBarrier = w.isBarrier ∧ v.epoch = w.epoch ∧
      (w.state ≠ .finished → v.state ≠ .finished)) : Waits d :=
  h.update (g := fun e => e) (fun _ => rfl) (fun _ hd => hd) (fun _ _ hi _ => hi) (by simp [holder]) hcur hwo hws

/-! ## What the receiver waits for -/

/-- The loop keeps the current epoch's flags or recycles it. -/
theorem allocDone_finish (hn : c.currentEpoch.id < c.nextId)
    (h : Drains c.writeOrdering → c.receiver = .allocating → c.currentEpoch.haveBarrierNumber = true →
      c.currentEpoch.barrierInNextEpochDone = true)
    (hev : ev ≠ .gotBarrierNr) :
    Drains (drbdMayFinishEpoch c id ev cleanup).writeOrdering →
      (drbdMayFinishEpoch c id ev cleanup).receiver = .allocating →
        (drbdMayFinishEpoch c id ev cleanup).currentEpoch.haveBarrierNumber = true →
          (drbdMayFinishEpoch c id ev cleanup).currentEpoch.barrierInNextEpochDone = true := by
  intro hm hr hhave
  rw [drbdMayFinishEpoch_method.1] at hm
  rw [drbdMayFinishEpoch_receiver] at hr
  by_cases hid : (drbdMayFinishEpoch c id ev cleanup).currentEpoch.id = c.currentEpoch.id
  · have hflags := drbdMayFinishEpoch_current hn hid
    rw [hflags.haveBarrierNumber] at hhave
    rw [hflags.barrierInNextEpochDone]
    have hcur : (c.afterEvent id ev cleanup).currentEpoch =
        modifyId id (applyEvent c.writeOrdering (id = c.currentEpoch.id) ev) c.currentEpoch := rfl
    rw [hcur] at hhave ⊢
    cases ev with
    | gotBarrierNr => exact absurd rfl hev
    | put =>
        unfold modifyId at hhave ⊢
        split
        · rename_i hid'
          rw [if_pos hid'] at hhave
          exact h hm hr hhave
        · rename_i hid'
          rw [if_neg hid'] at hhave
          exact h hm hr hhave
    | barrierDone =>
        unfold modifyId at hhave ⊢
        split
        · rfl
        · rename_i hid'
          rw [if_neg hid'] at hhave
          exact h hm hr hhave
  · have := (drbdMayFinishEpoch_recycled hid).1
    rw [this] at hhave
    cases hhave

theorem Alive.put (h : Waits c) (hsettled : c.oldest.id ≠ id → verdict c.writeOrdering false c.oldest = .live)
    (halloc : Drains c.writeOrdering → c.receiver = .allocating → c.currentEpoch.haveBarrierNumber = true →
      c.currentEpoch.barrierInNextEpochDone = true)
    (hb : Basic c (owesOne id)) : Alive (drbdMayFinishEpoch c id .put false) :=
  ⟨h.afterEvent.finish hb.afterPut, drbdMayFinishEpoch_settled hsettled,
    allocDone_finish (hb.named _ (currentEpoch_mem c)) halloc (by simp)⟩

/-- After the DONE event of an epoch, it has the flag if it is still there. -/
theorem barrierDone_done (hprev : prev < c.nextId) :
    ∀ e ∈ (drbdMayFinishEpoch c prev .barrierDone cleanup).all, e.id = prev → e.barrierInNextEpochDone = true := by
  have hP : prev < (drbdMayFinishEpoch c prev .barrierDone cleanup).nextId ∧
      ∀ e ∈ (drbdMayFinishEpoch c prev .barrierDone cleanup).all, e.id = prev → e.barrierInNextEpochDone = true := by
    refine drbdMayFinishEpoch_rule (P := fun d => prev < d.nextId ∧
      ∀ e ∈ d.all, e.id = prev → e.barrierInNextEpochDone = true) ?_ ?_ ?_ ⟨hprev, ?_⟩
    · intro d e rest hd hold _
      rw [destroyOldest_same.2.1, destroyOldest_all]
      refine ⟨hd.1, fun x hx => hd.2 x ?_⟩
      rw [all_of_older hold]
      exact List.mem_cons_of_mem e hx
    · intro d hd _
      refine ⟨hd.1, fun x hx hid => ?_⟩
      change x ∈ (d.modify _ _).all at hx
      rw [modify_all] at hx
      obtain ⟨e, he, rfl⟩ := List.mem_map.mp hx
      have hkeep := SameFlags.modifyId d.oldest.id (f := fun e => { e with active := e.active + 1 })
        (fun e => ⟨⟨rfl, rfl, rfl, rfl⟩, rfl, rfl⟩) e
      rw [hkeep.barrierInNextEpochDone]
      exact hd.2 e he (hkeep.id ▸ hid)
    · intro d hd hold _
      refine ⟨Nat.lt_succ_of_lt hd.1, fun x hx hid => ?_⟩
      rw [all_of_nil (by simpa using hold)] at hx
      cases List.mem_singleton.mp hx
      have hnew : d.nextId = prev := hid
      have := hd.1
      omega
    · rw [afterEvent_all]
      intro x hx hid
      obtain ⟨e, he, rfl⟩ := List.mem_map.mp hx
      rw [modifyId_id fun _ => applyEvent_id] at hid
      rw [modifyId_of_eq hid]
      rfl
  exact hP.2

theorem previousEpoch_cons {l : List DrbdEpoch} (hsorted : (e :: l).Pairwise (·.id < ·.id))
    (h : previousEpoch l id = some prev) : previousEpoch (e :: l) id = some prev := by
  cases l with
  | nil => cases h
  | cons e' l =>
      have hne : e'.id ≠ id := by
        obtain ⟨pre, d, d', post, hl, hd, hd'⟩ := previousEpoch_split h
        have htail := (List.pairwise_cons.mp hsorted).2
        rw [hl] at htail
        cases pre with
        | nil =>
            obtain ⟨rfl, -⟩ := List.cons.inj hl
            have hlt := (List.pairwise_cons.mp htail).1 d' List.mem_cons_self
            omega
        | cons x pre =>
            obtain ⟨rfl, -⟩ := List.cons.inj hl
            have hlt := (List.pairwise_cons.mp htail).1 d' (by simp)
            omega
      rw [previousEpoch, if_neg hne]
      exact h

/-- The loop gives no epoch a new predecessor. -/
theorem previousEpoch_of_finish (hb : Basic (c.afterEvent id ev cleanup) owesNothing)
    (h : previousEpoch (drbdMayFinishEpoch c id ev cleanup).all j = some prev) : previousEpoch c.all j = some prev := by
  have hP : (previousEpoch (drbdMayFinishEpoch c id ev cleanup).all j = some prev → previousEpoch c.all j = some prev) ∧
      Basic (drbdMayFinishEpoch c id ev cleanup) owesNothing ∧
        (cleanup = true → (drbdMayFinishEpoch c id ev cleanup).cleanedUp = true) := by
    refine drbdMayFinishEpoch_rule
      (P := fun d => (previousEpoch d.all j = some prev → previousEpoch c.all j = some prev) ∧
      Basic d owesNothing ∧ (cleanup = true → d.cleanedUp = true)) ?_ ?_ ?_
      ⟨?_, hb, fun hc => by simp [Connection.afterEvent, hc]⟩
    · intro d e rest hd hold hv
      refine ⟨fun hp => hd.1 ?_, hd.2.1.destroyOldest hold hv hd.2.2, ?_⟩
      · rw [destroyOldest_all] at hp
        have hsorted := hd.2.1.sorted
        rw [all_of_older hold] at hsorted ⊢
        exact previousEpoch_cons hsorted hp
      · rw [destroyOldest_same.2.2.2.1]
        exact hd.2.2
    · intro d hd _
      refine ⟨fun hp => hd.1 ?_, hd.2.1.queueFlush, hd.2.2⟩
      have hsame : previousEpoch (d.queueFlush d.oldest.id).all j = previousEpoch d.all j := by
        change previousEpoch (d.modify _ _).all j = _
        rw [modify_all]
        exact previousEpoch_map fun _ => modifyId_id fun _ => rfl
      exact hsame ▸ hp
    · intro d hd hold hv
      refine ⟨fun hp => ?_, hd.2.1.recycle hold hv hd.2.2, ?_⟩
      · rw [all_of_nil (by simpa using hold)] at hp
        cases hp
      · rw [recycle_same.2.2.1]
        exact hd.2.2
    · rw [afterEvent_all, previousEpoch_map fun _ => modifyId_id fun _ => applyEvent_id]
      exact fun hp => hp
  exact hP.1 h

/-! ## The events -/

theorem mem_set_of_ne {l : List PeerReq} {v x : PeerReq} (hget : l[i]? = some w) (hv : v ∈ l) (hne : v ≠ w) :
    v ∈ l.set i x := by
  obtain ⟨j, hj⟩ := List.getElem?_of_mem hv
  have hij : i ≠ j := by
    intro hij
    rw [← hij, hget] at hj
    cases hj
    exact hne rfl
  exact List.mem_of_getElem? (by rw [List.getElem?_set_ne hij]; exact hj)

/-- A write that goes on is still waited for. -/
theorem advancedWrites {x : PeerReq} (hget : c.writes[i]? = some w) (hb : x.isBarrier = w.isBarrier)
    (he : x.epoch = w.epoch) (hs : x.state ≠ .finished) :
    ∀ v ∈ c.writes, ∃ u ∈ c.writes.set i x, u.isBarrier = v.isBarrier ∧ u.epoch = v.epoch ∧
      (v.state ≠ .finished → u.state ≠ .finished) := by
  intro v hv
  by_cases hvw : v = w
  · subst hvw
    obtain ⟨hlt, -⟩ := List.getElem?_eq_some_iff.mp hget
    exact ⟨x, List.mem_of_getElem? (List.getElem?_set_self hlt), hb, he, fun _ => hs⟩
  · exact ⟨v, mem_set_of_ne hget hv hvw, rfl, rfl, fun h => h⟩

/-- Only writes change, and none is finished by that. -/
theorem Alive.sameEpochs {ws : List PeerReq} {r : Receiver} (h : Alive c)
    (hws : ∀ w ∈ c.writes, ∃ v ∈ ws, v.isBarrier = w.isBarrier ∧ v.epoch = w.epoch ∧
      (w.state ≠ .finished → v.state ≠ .finished))
    (hr : r = .allocating → c.receiver = .allocating) : Alive { c with writes := ws, receiver := r } :=
  ⟨h.waits.sameEpochs rfl rfl rfl hws, h.settled, fun hm ha => h.allocDone hm (hr ha)⟩

theorem Alive.endio (h : Alive c) (hstep : endio c i failed = some c') (hbumped : c'.bumped = false) :
    Alive c' := by
  unfold PeerEpoch.endio at hstep
  split at hstep
  · cases hstep
  · rename_i w d hmove
    obtain ⟨hget, hstate, rfl⟩ := moveWrite_some hmove
    have hadv := advancedWrites (x := { w with state := .done }) hget rfl rfl (by simp)
    have hset : Alive { c with writes := c.writes.set i { w with state := .done } } :=
      h.sameEpochs hadv fun hr => hr
    split at hstep
    · cases hstep
      split
      · refine hset.sameEpochs (fun v hv => ?_) fun hr => hr
        obtain ⟨j, hj⟩ := List.getElem?_of_mem hv
        refine ⟨{ v with stable := v.stable || decide (j ≤ i) }, ?_, rfl, rfl, fun hs => hs⟩
        refine List.mem_of_getElem? (i := j) ?_
        rw [List.getElem?_mapIdx, hj]
        rfl
      · exact hset
    · rename_i allowed
      split at hstep
      · cases hstep
        have hsame := bumpWriteOrdering_same hbumped
        rw [hsame]
        exact h.sameEpochs (advancedWrites hget rfl rfl (by simp)) fun hr => hr
      · cases hstep
        exact hset

theorem Alive.eEndBlock (h : Alive c) (hb : Basic c owesNothing) (hstep : eEndBlock c i false = some c') :
    Alive c' := by
  unfold PeerEpoch.eEndBlock at hstep
  split at hstep
  · cases hstep
  · rename_i w _ hmove
    obtain ⟨hget, hstate, -⟩ := moveWrite_some hmove
    cases hstep
    -- No epoch waits for this write once the one before has its flag.
    have hset : ∀ {d : Connection}, Alive d → Basic d owesNothing → d.writes = c.writes →
        (∀ e ∈ d.all, e.barrierInNextEpochDone = false → w.isBarrier = true → previousEpoch d.all w.epoch ≠ some e.id) →
        Alive (drbdMayFinishEpoch { d with writes := d.writes.set i { w with state := .finished } }
          w.epoch .put false) := by
      intro d hd hdb hw hfree
      have hget' : d.writes[i]? = some w := hw ▸ hget
      refine Alive.put ⟨hd.waits.oldDone, fun hm e he hi hnd => ?_⟩ (fun _ => hd.settled) hd.allocDone ?_
      · obtain ⟨v, hv, hvb, hvs, hvp⟩ := hd.waits.pending hm e he hi hnd
        have hne : v ≠ w := by
          intro hvw
          subst hvw
          exact hfree e he hnd hvb hvp
        exact ⟨v, mem_set_of_ne hget' hv hne, hvb, hvs, hvp⟩
      · exact hdb.setKey (keys_getElem? hget') (by simp [hstate]) keys_set (by simp) (by simp)
          (Or.inl ⟨rfl, by simp [hstate]⟩)
    split
    · rename_i prev hprev
      have hisb : w.isBarrier = true := by
        by_contra hnb
        simp [hnb] at hprev
      rw [if_pos hisb] at hprev
      have hlt := (hb.previous_lt hprev).2
      have hnamed := hb.named _ (currentEpoch_mem c)
      have halive : Alive (drbdMayFinishEpoch c prev .barrierDone false) :=
        ⟨h.waits.afterEvent.finish hb.afterDone, drbdMayFinishEpoch_settled fun _ => h.settled,
          allocDone_finish hnamed h.allocDone (by simp)⟩
      refine hset halive hb.barrierDone drbdMayFinishEpoch_writes fun e he hnd _ hp => ?_
      have hp' := previousEpoch_of_finish hb.afterDone hp
      rw [hprev] at hp'
      cases hp'
      have := barrierDone_done (Nat.lt_trans hlt hnamed) e he rfl
      rw [this] at hnd
      cases hnd
    · rename_i hnone
      refine hset h hb rfl fun e _ _ hwb hp => ?_
      rw [if_pos hwb, hp] at hnone
      cases hnone

theorem verdict_issued (h : verdict wo cleanup e = .live) :
    verdict wo cleanup { e with barrierInNextEpochIssued := true } = .live := by
  unfold verdict at h ⊢
  dsimp only at h ⊢
  split
  · rename_i hready
    rw [if_pos hready] at h
    split
    · rename_i hdone
      rw [if_pos hdone] at h
      cases h
    · simp
  · rfl

theorem setIssued_settled (h : verdict c.writeOrdering false c.oldest = .live) :
    verdict (c.setIssued id).writeOrdering false (c.setIssued id).oldest = .live := by
  have hold : (c.setIssued id).oldest =
      modifyId id (fun e => { e with barrierInNextEpochIssued := true }) c.oldest := modify_oldest
  rw [hold]
  unfold modifyId
  split
  · exact verdict_issued h
  · exact h

theorem Alive.wFlush (h : Alive c) (hord : Ordered c) (hb : Basic c owesNothing)
    (hstep : wFlush c failed false = some c') (hbumped : c'.bumped = false) : Alive c' := by
  unfold PeerEpoch.wFlush at hstep
  split at hstep
  · cases hstep
  · rename_i id rest hf
    cases hstep
    have hpop : ∀ {d : Connection} {t : List Nat}, Alive d → Basic d owesNothing → d.flushWork = id :: t →
        Alive (drbdMayFinishEpoch { d with flushWork := t } id .put false) := by
      intro d t hd hdb hdf
      exact Alive.put ⟨hd.waits.oldDone, hd.waits.pending⟩ (fun _ => hd.settled) hd.allocDone (hdb.popFlush hdf)
    split
    · rw [hf]
      exact hpop h hb hf
    · rename_i hissued
      rw [if_neg hissued, drbdMayFinishEpoch_method.2] at hbumped
      have hbump : ((c.setIssued id).issueFlush failed).bumped = false := drbdFlushAfterEpoch_bumped.symm.trans hbumped
      have hbi : Basic ((c.setIssued id).issueFlush failed) owesNothing := hb.setIssued.issueFlush
      obtain ⟨t, ht⟩ := @flushAfterEpoch_flushWork (c.setIssued id) id failed
      rw [show (c.setIssued id).flushWork = c.flushWork from rfl, hf, List.cons_append] at ht
      rw [ht]
      refine hpop ?_ hb.setIssued.flushAfterEpoch ht
      obtain ⟨hcur, hrecv, holder⟩ := @issueFlush_same (c.setIssued id) failed
      have hwo : ((c.setIssued id).issueFlush failed).writeOrdering = c.writeOrdering := by
        obtain ⟨-, ⟨-, heq⟩ | ⟨-, heq⟩⟩ := issueFlush_cases hbump
        · rw [heq]
          rfl
        · rw [heq]
          rfl
      have hws : ∀ w ∈ c.writes, ∃ v ∈ ((c.setIssued id).issueFlush failed).writes, v.isBarrier = w.isBarrier ∧
          v.epoch = w.epoch ∧ (w.state ≠ .finished → v.state ≠ .finished) := by
        intro w hw
        obtain ⟨-, ⟨-, heq⟩ | ⟨-, heq⟩⟩ := issueFlush_cases hbump
        · rw [heq]
          exact ⟨w, hw, rfl, rfl, fun hs => hs⟩
        · rw [heq]
          exact ⟨w.flushed, List.mem_map_of_mem hw, rfl, rfl, fun hs => hs⟩
      refine ⟨Waits.finish ?_ hbi.afterDone, drbdMayFinishEpoch_settled fun _ => ?_, allocDone_finish ?_ ?_ (by simp)⟩
      · -- The epoch that gets the ISSUED flag gets the DONE flag at once.
        refine h.waits.update (g := fun e => modifyId id (applyEvent ((c.setIssued id).issueFlush failed).writeOrdering
            (id = ((c.setIssued id).issueFlush failed).currentEpoch.id) .barrierDone)
            (modifyId id (fun e => { e with barrierInNextEpochIssued := true }) e)) (fun e => ?_) (fun e hd => ?_)
          (fun e _ hi hnd => ?_) ?_ ?_ hwo hws
        · rw [modifyId_id fun _ => applyEvent_id]
          exact modifyId_id fun _ => rfl
        · by_cases hid : e.id = id
          · simp [modifyId, hid, applyEvent]
          · rw [modifyId_of_ne hid, modifyId_of_ne hid]
            exact hd
        · by_cases hid : e.id = id
          · simp [modifyId, hid, applyEvent] at hnd
          · rw [modifyId_of_ne hid, modifyId_of_ne hid] at hi
            exact hi
        · change ((c.setIssued id).issueFlush failed).older.map _ = _
          rw [holder]
          change (c.older.map _).map _ = _
          rw [List.map_map]
          rfl
        · change modifyId id _ ((c.setIssued id).issueFlush failed).currentEpoch = _
          conv_lhs => rw [hcur]
          rfl
      · have hold : ((c.setIssued id).issueFlush failed).oldest = (c.setIssued id).oldest := by
          unfold Connection.oldest
          rw [holder, hcur]
        rw [hold, hwo]
        exact setIssued_settled h.settled
      · exact hbi.named _ (currentEpoch_mem _)
      · rw [hwo, hrecv, hcur]
        intro hm hr hhave
        have hm' := hord.flushMethod (by simp [hf])
        rcases hm with hm | hm
        · rw [hm'] at hm
          cases hm
        · rw [hm'] at hm
          cases hm

theorem Alive.addWrite (h : Waits c) (hb : Basic c owesNothing) (hidle : c.receiver = .idle)
    (hsettled : verdict c.writeOrdering false c.oldest = .live) : Alive (c.addWrite barrier) := by
  have hids : ∀ j, previousEpoch (c.addWrite barrier).all j = previousEpoch c.all j :=
    fun j => previousEpoch_congr (by simp [Connection.all, Connection.addWrite])
  refine ⟨⟨h.oldDone, fun hm e he hi hnd => ?_⟩, ?_, fun _ hr => by cases hr⟩
  · have hold : ∃ d ∈ c.all, d.id = e.id ∧ d.barrierInNextEpochIssued = e.barrierInNextEpochIssued ∧
        d.barrierInNextEpochDone = e.barrierInNextEpochDone := by
      rcases List.mem_append.mp he with he | he
      · exact ⟨e, List.mem_append_left _ he, rfl, rfl, rfl⟩
      · cases List.mem_singleton.mp he
        exact ⟨c.currentEpoch, currentEpoch_mem c, rfl, rfl, rfl⟩
    obtain ⟨d, hd, hde, hdi, hdd⟩ := hold
    obtain ⟨w, hw, hwb, hws, hwp⟩ := h.pending hm d hd (hdi.trans hi) (hdd.trans hnd)
    exact ⟨w, List.mem_append_left _ hw, hwb, hws, by rw [hids, hwp, hde]⟩
  · cases hold : c.older with
    | nil =>
        rw [oldest_of_nil (c := c.addWrite barrier) hold]
        exact verdict_of_open (hb.open_of_idle hidle)
    | cons e rest =>
        rw [oldest_of_cons (c := c.addWrite barrier) hold]
        rw [oldest_of_cons hold] at hsettled
        exact hsettled

/-- The barrier that is issued with the next write is that write. -/
theorem Alive.addBarrier {p : DrbdEpoch} (h : Alive c) (hb : Basic c owesNothing) (hidle : c.receiver = .idle)
    (hprev : c.older.getLast? = some p) : Alive ((c.setIssued p.id).addWrite true) := by
  have hmem : p ∈ c.older := List.mem_of_getLast? hprev
  have hcur := setIssued_current hb hmem
  have hne : ∀ e ∈ c.older, e.id ≠ c.currentEpoch.id := fun e he =>
    Nat.ne_of_lt ((List.pairwise_append.mp hb.sorted).2.2 e he c.currentEpoch (List.mem_singleton_self _))
  have hallmap : (c.setIssued p.id).all =
      c.all.map (modifyId p.id fun e => { e with barrierInNextEpochIssued := true }) :=
    modify_all c p.id _
  have hids : ∀ j, previousEpoch ((c.setIssued p.id).addWrite true).all j = previousEpoch c.all j := by
    intro j
    have hadd : previousEpoch ((c.setIssued p.id).addWrite true).all j = previousEpoch (c.setIssued p.id).all j :=
      previousEpoch_congr (by simp [Connection.all, Connection.addWrite])
    rw [hadd, hallmap]
    exact previousEpoch_map fun _ => modifyId_id fun _ => rfl
  have hopen : (c.setIssued p.id).currentEpoch.haveBarrierNumber = false := by
    rw [hcur]
    exact hb.open_of_idle hidle
  refine ⟨⟨fun hm e he => ?_, fun hm e he hi hnd => ?_⟩, ?_, fun _ hr => by cases hr⟩
  · obtain ⟨d, hd, rfl⟩ := List.mem_map.mp (show e ∈ c.older.map _ from he)
    have hkeep : (modifyId p.id (fun e => { e with barrierInNextEpochIssued := true }) d).barrierInNextEpochDone =
        d.barrierInNextEpochDone := by
      unfold modifyId
      split <;> rfl
    exact hkeep.trans (h.waits.oldDone hm d hd)
  · -- The epoch before waits for the new write, any other for the one it waited for.
    have hold : ∃ d ∈ c.all, d.id = e.id ∧ d.barrierInNextEpochDone = e.barrierInNextEpochDone ∧
        (d.id ≠ p.id → d.barrierInNextEpochIssued = e.barrierInNextEpochIssued) := by
      have hmod : ∀ d : DrbdEpoch, (modifyId p.id (fun e => { e with barrierInNextEpochIssued := true }) d).id = d.id ∧
          (modifyId p.id (fun e => { e with barrierInNextEpochIssued := true }) d).barrierInNextEpochDone =
            d.barrierInNextEpochDone ∧ (d.id ≠ p.id → (modifyId p.id
              (fun e => { e with barrierInNextEpochIssued := true }) d).barrierInNextEpochIssued =
                d.barrierInNextEpochIssued) := by
        intro d
        unfold modifyId
        split
        · rename_i hid
          exact ⟨rfl, rfl, fun hne => absurd hid hne⟩
        · exact ⟨rfl, rfl, fun _ => rfl⟩
      rcases List.mem_append.mp he with he | he
      · obtain ⟨d, hd, rfl⟩ := List.mem_map.mp (show e ∈ c.older.map _ from he)
        exact ⟨d, List.mem_append_left _ hd, (hmod d).1.symm, (hmod d).2.1.symm, fun hn => ((hmod d).2.2 hn).symm⟩
      · cases List.mem_singleton.mp he
        exact ⟨c.currentEpoch, currentEpoch_mem c, (hmod _).1.symm, (hmod _).2.1.symm, fun hn => ((hmod _).2.2 hn).symm⟩
    obtain ⟨d, hd, hde, hdd, hdi⟩ := hold
    by_cases hdp : d.id = p.id
    · refine ⟨⟨c.currentEpoch.id, true, false, .resolving, false⟩, ?_, rfl, by simp, ?_⟩
      · change _ ∈ c.writes ++ [⟨(c.setIssued p.id).currentEpoch.id, true, false, .resolving, false⟩]
        rw [hcur]
        simp
      · rw [hids, ← hde, hdp]
        exact previousEpoch_last hne hprev
    · obtain ⟨w, hw, hwb, hws, hwp⟩ := h.waits.pending hm d hd ((hdi hdp).trans hi) (hdd.trans hnd)
      exact ⟨w, List.mem_append_left _ hw, hwb, hws, by rw [hids, hwp, hde]⟩
  · have hset := @setIssued_settled _ p.id h.settled
    cases hold : (c.setIssued p.id).older with
    | nil =>
        rw [oldest_of_nil (c := (c.setIssued p.id).addWrite true) hold]
        exact verdict_of_open hopen
    | cons e rest =>
        rw [oldest_of_cons (c := (c.setIssued p.id).addWrite true) hold]
        rw [oldest_of_cons hold] at hset
        exact hset

theorem Alive.receiveData (h : Alive c) (hb : Basic c owesNothing) (hidle : c.receiver = .idle) :
    Alive (receiveData c) := by
  unfold PeerEpoch.receiveData
  split
  · rename_i p hp
    split
    · exact h.addBarrier hb hidle hp
    · exact Alive.addWrite h.waits hb hidle h.settled
  · exact Alive.addWrite h.waits hb hidle h.settled

theorem Alive.dataNoDisk (h : Alive c) (hb : Basic c owesNothing) (hidle : c.receiver = .idle) :
    Alive { c with
      currentEpoch := { c.currentEpoch with epochSize := c.currentEpoch.epochSize + 1 }
      dataCount := c.dataCount + 1 } := by
  have hids : ∀ j, previousEpoch (c.older ++ [{ c.currentEpoch with epochSize := c.currentEpoch.epochSize + 1 }]) j =
      previousEpoch c.all j :=
    fun j => previousEpoch_congr (by simp [Connection.all])
  refine ⟨⟨h.waits.oldDone, fun hm e he hi hnd => ?_⟩, ?_, h.allocDone⟩
  · have hold : ∃ d ∈ c.all, d.id = e.id ∧ d.barrierInNextEpochIssued = e.barrierInNextEpochIssued ∧
        d.barrierInNextEpochDone = e.barrierInNextEpochDone := by
      rcases List.mem_append.mp he with he | he
      · exact ⟨e, List.mem_append_left _ he, rfl, rfl, rfl⟩
      · cases List.mem_singleton.mp he
        exact ⟨c.currentEpoch, currentEpoch_mem c, rfl, rfl, rfl⟩
    obtain ⟨d, hd, hde, hdi, hdd⟩ := hold
    obtain ⟨w, hw, hwb, hws, hwp⟩ := h.waits.pending hm d hd (hdi.trans hi) (hdd.trans hnd)
    refine ⟨w, hw, hwb, hws, ?_⟩
    rw [← hde]
    exact (hids w.epoch).trans hwp
  · have hs := h.settled
    cases hold : c.older with
    | nil => exact verdict_of_open (hb.open_of_idle hidle)
    | cons e rest =>
        rw [oldest_of_cons hold] at hs
        exact hs

theorem Alive.receiveBarrier (h : Alive c) (hb : Basic c owesNothing) (hidle : c.receiver = .idle)
    (hclean : c.cleanedUp = false) (hsize : c.currentEpoch.epochSize ≠ 0) : Alive (receiveBarrier c nr) := by
  have hb' := hb.noteBarrier nr hidle hclean hsize
  have hnote : Waits (c.noteBarrier nr) :=
    ⟨h.waits.oldDone, fun hm e he hi hnd => by
      have hold : ∃ d ∈ c.all, d.id = e.id ∧ d.barrierInNextEpochIssued = e.barrierInNextEpochIssued ∧
          d.barrierInNextEpochDone = e.barrierInNextEpochDone := by
        rcases List.mem_append.mp he with he | he
        · exact ⟨e, List.mem_append_left _ he, rfl, rfl, rfl⟩
        · cases List.mem_singleton.mp he
          exact ⟨c.currentEpoch, currentEpoch_mem c, rfl, rfl, rfl⟩
      obtain ⟨d, hd, hde, hdi, hdd⟩ := hold
      obtain ⟨w, hw, hwb, hws, hwp⟩ := h.waits.pending hm d hd (hdi.trans hi) (hdd.trans hnd)
      have hids : previousEpoch (c.noteBarrier nr).all w.epoch = previousEpoch c.all w.epoch :=
        previousEpoch_congr (by simp [Connection.all, Connection.noteBarrier])
      exact ⟨w, hw, hwb, hws, by rw [hids, hwp, hde]⟩⟩
  have hwaits := hnote.afterEvent.finish hb'
  have hold : (c.noteBarrier nr).oldest.id = c.oldest.id ∧ (c.noteBarrier nr).oldest.id ≠ c.currentEpoch.id →
      verdict (c.noteBarrier nr).writeOrdering false (c.noteBarrier nr).oldest = .live := by
    intro hid
    have hs := h.settled
    cases ho : c.older with
    | nil =>
        rw [oldest_of_nil (c := c.noteBarrier nr) ho] at hid
        exact absurd rfl hid.2
    | cons e rest =>
        rw [oldest_of_cons (c := c.noteBarrier nr) ho]
        rw [oldest_of_cons ho] at hs
        exact hs
  have hid : (c.noteBarrier nr).oldest.id = c.oldest.id := by
    cases ho : c.older with
    | nil =>
        rw [oldest_of_nil (c := c.noteBarrier nr) ho, oldest_of_nil ho]
        rfl
    | cons e rest => rw [oldest_of_cons (c := c.noteBarrier nr) ho, oldest_of_cons ho]
  have hsettled := @drbdMayFinishEpoch_settled (c.noteBarrier nr) c.currentEpoch.id .gotBarrierNr
    fun hne => hold ⟨hid, hne⟩
  unfold PeerEpoch.receiveBarrier
  dsimp only
  split
  · exact ⟨⟨hwaits.oldDone, hwaits.pending⟩, hsettled, fun _ hr => by cases hr⟩
  · split
    · rename_i hm
      refine ⟨hwaits, hsettled, fun hd => ?_⟩
      simp only [Bool.or_eq_true, decide_eq_true_eq] at hm
      rcases hd with hd | hd
      · rw [hd] at hm
        rcases hm with hm | hm
        · cases hm
        · cases hm
      · rw [hd] at hm
        rcases hm with hm | hm
        · cases hm
        · cases hm
    · rename_i hm
      have hset := @setIssued_settled _ c.currentEpoch.id hsettled
      refine ⟨⟨fun hd e he => ?_, fun hbio => ?_⟩, hset, fun _ hr => by cases hr⟩
      · obtain ⟨d, hdm, rfl⟩ := List.mem_map.mp (show e ∈ List.map _ _ from he)
        have hkeep : (modifyId c.currentEpoch.id (fun e => { e with barrierInNextEpochIssued := true })
            d).barrierInNextEpochDone = d.barrierInNextEpochDone := by
          unfold modifyId
          split <;> rfl
        exact hkeep.trans (hwaits.oldDone hd d hdm)
      · have hbio' : (drbdMayFinishEpoch (c.noteBarrier nr) c.currentEpoch.id .gotBarrierNr false).writeOrdering =
            .bioBarrier := hbio
        rw [hbio'] at hm
        simp at hm

theorem Alive.barrierDrained (h : Alive c) (hord : Ordered c) (hb : Basic c owesNothing)
    (hdrain : c.receiver = .draining)
    (hbumped : (barrierDrained c failed).bumped = false) : Alive (barrierDrained c failed) := by
  have hm := (hord.draining hdrain).1
  have hb' : Basic { c with receiver := .allocating } owesNothing :=
    hb.setReceiver (by simp [hdrain]) (fun _ => Or.inr rfl) (fun _ => Or.inl hdrain) (by simp)
  have hbump : (Connection.issueFlush { c with receiver := .allocating } failed).bumped = false := by
    rw [← drbdFlushAfterEpoch_bumped]
    unfold PeerEpoch.barrierDrained at hbumped
    dsimp only at hbumped
    split at hbumped <;> exact hbumped
  obtain ⟨hcur, hrecv, holder⟩ := @issueFlush_same { c with receiver := .allocating } failed
  have hbi : Basic (Connection.issueFlush { c with receiver := .allocating } failed) owesNothing := hb'.issueFlush
  have hwo : (Connection.issueFlush { c with receiver := .allocating } failed).writeOrdering = c.writeOrdering := by
    obtain ⟨-, ⟨-, heq⟩ | ⟨-, heq⟩⟩ := issueFlush_cases hbump
    · rw [heq]
    · rw [heq]
  have hwaits : Waits (drbdFlushAfterEpoch { c with receiver := .allocating } c.currentEpoch.id failed) := by
    refine Waits.finish (Waits.afterEvent ⟨fun hd e he => ?_, fun hbio => ?_⟩) hbi.afterDone
    · rw [holder] at he
      rw [hwo] at hd
      exact h.waits.oldDone hd e he
    · rw [hwo] at hbio
      rcases hm with hm | hm
      · rw [hm] at hbio
        cases hbio
      · rw [hm] at hbio
        cases hbio
  have hold : (Connection.issueFlush { c with receiver := .allocating } failed).oldest = c.oldest := by
    unfold Connection.oldest
    rw [holder, hcur]
  have hsettled : verdict
      (drbdFlushAfterEpoch { c with receiver := .allocating } c.currentEpoch.id failed).writeOrdering
      false (drbdFlushAfterEpoch { c with receiver := .allocating } c.currentEpoch.id failed).oldest = .live := by
    refine drbdMayFinishEpoch_settled fun _ => ?_
    rw [hold, hwo]
    exact h.settled
  unfold PeerEpoch.barrierDrained
  dsimp only
  split
  · exact ⟨⟨hwaits.oldDone, hwaits.pending⟩, hsettled, fun _ hr => by cases hr⟩
  · rename_i hid
    refine ⟨hwaits, hsettled, fun _ _ hhave => ?_⟩
    have hmem := currentEpoch_mem (drbdFlushAfterEpoch { c with receiver := .allocating } c.currentEpoch.id failed)
    have hn := hbi.named _ (currentEpoch_mem _)
    rw [hcur] at hn
    exact barrierDone_done hn _ hmem (by simpa using hid)

theorem Alive.barrierAllocated (h : Alive c) (hb : Basic c owesNothing) (halloc : c.receiver = .allocating) :
    Alive (barrierAllocated c) := by
  unfold PeerEpoch.barrierAllocated
  split
  · exact ⟨⟨h.waits.oldDone, h.waits.pending⟩, h.settled, fun _ hr => by cases hr⟩
  · rename_i hsize
    have hhave := hb.closing (Or.inr halloc) hsize
    refine ⟨⟨fun hd e he => ?_, fun hm e he hi hnd => ?_⟩, ?_, fun _ hr => by cases hr⟩
    · rcases List.mem_append.mp he with he | he
      · exact h.waits.oldDone hd e he
      · cases List.mem_singleton.mp he
        exact h.allocDone hd halloc hhave
    · rcases List.mem_append.mp he with he | he
      · obtain ⟨w, hw, hwb, hws, hwp⟩ := h.waits.pending hm e he hi hnd
        exact ⟨w, hw, hwb, hws, previousEpoch_append hwp⟩
      · cases List.mem_singleton.mp he
        cases hi
    · have hs := h.settled
      cases hold : c.older with
      | nil =>
          rw [oldest_of_nil hold] at hs
          exact hs
      | cons e rest =>
          rw [oldest_of_cons hold] at hs
          exact hs

/-! ## A step -/

theorem cleanedUp_of_finish (h : (drbdMayFinishEpoch c id ev cleanup).cleanedUp = false) :
    c.cleanedUp = false ∧ cleanup = false := by
  rw [drbdMayFinishEpoch_cleanedUp] at h
  exact Bool.or_eq_false_iff.mp h

theorem step_alive {ev : Event} (h : Alive c) (hord : Ordered c) (hb : Basic c owesNothing) (hok : Orderly c ev)
    (hstep : step c ev = some c') (hbumped : c'.bumped = false) (hclean : c'.cleanedUp = false) : Alive c' := by
  cases ev with
  | data =>
      simp only [step] at hstep
      split at hstep
      · cases hstep
        exact h.receiveData hb (by assumption)
      · cases hstep
  | dataNoDisk =>
      simp only [step] at hstep
      split at hstep
      · cases hstep
        exact h.dataNoDisk hb (by assumption)
      · cases hstep
  | submit =>
      obtain ⟨⟨w, d⟩, hres, rfl⟩ := Option.map_eq_some_iff.mp hstep
      obtain ⟨-, hget, hstate, rfl⟩ := resolve_some hres
      exact h.sameEpochs (advancedWrites hget rfl rfl (by simp)) fun hr => by cases hr
  | supersede => exact absurd hok id
  | interrupted =>
      obtain ⟨⟨w, d⟩, hdrop, rfl⟩ := Option.map_eq_some_iff.mp hstep
      have := (cleanedUp_of_finish hclean).2
      cases this
  | sendSuperseded i =>
      obtain ⟨⟨w, d⟩, hmove, rfl⟩ := Option.map_eq_some_iff.mp hstep
      obtain ⟨hget, hstate, -⟩ := moveWrite_some hmove
      exact absurd hstate (hb.conflicts _ (List.mem_of_getElem? (keys_getElem? hget)))
  | endio i failed => exact h.endio hstep hbumped
  | reissue i =>
      obtain ⟨⟨w, d⟩, hmove, rfl⟩ := Option.map_eq_some_iff.mp hstep
      obtain ⟨hget, hstate, -⟩ := moveWrite_some hmove
      exact absurd hstate (hord.writesOrdered.plain w (List.mem_of_getElem? hget)).2
  | reissueFailed i =>
      obtain ⟨⟨w, d⟩, hmove, rfl⟩ := Option.map_eq_some_iff.mp hstep
      have := (cleanedUp_of_finish hclean).2
      cases this
  | endBlock i cancel =>
      have hcancel : cancel = false := by
        simp only [step, PeerEpoch.eEndBlock] at hstep
        split at hstep
        · cases hstep
        · cases hstep
          exact (cleanedUp_of_finish hclean).2
      subst hcancel
      exact h.eEndBlock hb hstep
  | flush failed cleanup =>
      have hcleanup : cleanup = false := by
        simp only [step, PeerEpoch.wFlush] at hstep
        split at hstep
        · cases hstep
        · cases hstep
          exact (cleanedUp_of_finish hclean).2
      subst hcleanup
      exact h.wFlush hord hb hstep hbumped
  | barrier nr =>
      simp only [step] at hstep
      split at hstep
      · cases hstep
        exact h.receiveBarrier hb (by assumption) hok.1 hok.2
      · cases hstep
  | drained failed =>
      simp only [step, Bool.and_eq_true, decide_eq_true_eq] at hstep
      split at hstep
      · rename_i hd
        cases hstep
        exact h.barrierDrained hord hb hd.1 hbumped
      · cases hstep
  | allocated =>
      simp only [step] at hstep
      split at hstep
      · cases hstep
        exact h.barrierAllocated hb (by assumption)
      · cases hstep
  | bump wo allowed =>
      cases hstep
      rw [bumpWriteOrdering_same hbumped]
      exact h

end Drbd.PeerEpoch
