import Drbd.PeerEpoch.Lemmas.Basic

/-!
# The events, as far as references and acks go
-/

namespace Drbd.PeerEpoch

variable {c c' : Connection} {e : DrbdEpoch} {id i j nr ep : Nat} {cleanup barrier : Bool} {ev : EpochEvent}
  {w : PeerReq} {before after : EeState} {failed : Option WriteOrdering} {wo : WriteOrdering}

/-! ## What the loop leaves alone -/

theorem drbdMayFinishEpoch_writes : (drbdMayFinishEpoch c id ev cleanup).writes = c.writes := by
  refine drbdMayFinishEpoch_rule (P := fun d => d.writes = c.writes) ?_ ?_ ?_ rfl
  · intro d e rest hd _ _
    rw [← hd]
    unfold Connection.destroyOldest Connection.sendBAck
    split <;> rfl
  · exact fun d hd _ => hd
  · intro d hd _ _
    rw [← hd]
    unfold Connection.recycle Connection.sendBAck
    split <;> rfl

theorem drbdMayFinishEpoch_receiver : (drbdMayFinishEpoch c id ev cleanup).receiver = c.receiver := by
  refine drbdMayFinishEpoch_rule (P := fun d => d.receiver = c.receiver) ?_ ?_ ?_ rfl
  · exact fun d e rest hd _ _ => destroyOldest_same.2.2.1.trans hd
  · exact fun d hd _ => hd
  · exact fun d hd _ _ => recycle_same.2.1.trans hd

theorem drbdMayFinishEpoch_method : (drbdMayFinishEpoch c id ev cleanup).writeOrdering = c.writeOrdering ∧
    (drbdMayFinishEpoch c id ev cleanup).bumped = c.bumped := by
  refine drbdMayFinishEpoch_rule (P := fun d => d.writeOrdering = c.writeOrdering ∧ d.bumped = c.bumped) ?_ ?_ ?_
    ⟨rfl, rfl⟩
  · intro d e rest hd _ _
    unfold Connection.destroyOldest Connection.sendBAck
    split <;> exact hd
  · exact fun d hd _ => hd
  · intro d hd _ _
    unfold Connection.recycle Connection.sendBAck
    split <;> exact hd

theorem drbdMayFinishEpoch_cleanedUp : (drbdMayFinishEpoch c id ev cleanup).cleanedUp = (c.cleanedUp || cleanup) := by
  refine drbdMayFinishEpoch_rule (P := fun d => d.cleanedUp = (c.cleanedUp || cleanup)) ?_ ?_ ?_ rfl
  · exact fun d e rest hd _ _ => destroyOldest_same.2.2.2.1.trans hd
  · exact fun d hd _ => hd
  · exact fun d hd _ _ => recycle_same.2.2.1.trans hd

/-- A current epoch with a new name is an empty one. -/
theorem drbdMayFinishEpoch_recycled (h : (drbdMayFinishEpoch c id ev cleanup).currentEpoch.id ≠ c.currentEpoch.id) :
    (drbdMayFinishEpoch c id ev cleanup).currentEpoch.haveBarrierNumber = false ∧
      (drbdMayFinishEpoch c id ev cleanup).currentEpoch.epochSize = 0 := by
  have hP : (drbdMayFinishEpoch c id ev cleanup).currentEpoch.id = c.currentEpoch.id ∨
      ((drbdMayFinishEpoch c id ev cleanup).currentEpoch.haveBarrierNumber = false ∧
        (drbdMayFinishEpoch c id ev cleanup).currentEpoch.epochSize = 0) := by
    refine drbdMayFinishEpoch_rule (P := fun d => d.currentEpoch.id = c.currentEpoch.id ∨
      (d.currentEpoch.haveBarrierNumber = false ∧ d.currentEpoch.epochSize = 0)) ?_ ?_ ?_ ?_
    · intro d e rest hd _ _
      unfold Connection.destroyOldest Connection.sendBAck
      split <;> exact hd
    · intro d hd _
      simp only [Connection.queueFlush, Connection.modify, modifyId]
      split <;> exact hd
    · exact fun d hd _ _ => Or.inr ⟨rfl, rfl⟩
    · left
      exact modifyId_id fun e => applyEvent_id
  exact hP.resolve_left h

theorem drbdMayFinishEpoch_flushWork : ∃ t, (drbdMayFinishEpoch c id ev cleanup).flushWork = c.flushWork ++ t := by
  refine drbdMayFinishEpoch_rule (P := fun d => ∃ t, d.flushWork = c.flushWork ++ t) ?_ ?_ ?_
    ⟨[], by simp [Connection.afterEvent, Connection.modify]⟩
  · intro d e rest hd _ _
    rw [destroyOldest_same.1]
    exact hd
  · intro d hd _
    obtain ⟨t, ht⟩ := hd
    exact ⟨t ++ [d.oldest.id], by simp [Connection.queueFlush, ht]⟩
  · intro d hd _ _
    rw [recycle_same.1]
    exact hd

/-! ## Writes -/

theorem moveWrite_some (h : c.moveWrite i before after = some (w, c')) : c.writes[i]? = some w ∧ w.state = before ∧
    c' = { c with writes := c.writes.set i { w with state := after } } := by
  unfold Connection.moveWrite at h
  split at h
  · rename_i v hv
    split at h
    · rename_i hs
      cases h
      exact ⟨hv, hs, rfl⟩
    · cases h
  · cases h

theorem keys_getElem? (h : c.writes[i]? = some w) : c.keys[i]? = some (w.epoch, w.state) := by
  simp [Connection.keys, h]

/-- Only the state of one write changes. -/
theorem Basic.setKey {ws : List PeerReq} {r : Receiver} {b : Bool} (h : Basic c owesNothing)
    (hget : c.keys[i]? = some (ep, before)) (hbefore : before ≠ .finished)
    (hkeys : ws.map (fun w => (w.epoch, w.state)) = c.keys.set i (ep, after)) (hafter : after ≠ .superseded)
    (hres : after ≠ .resolving)
    (hrecv : r = c.receiver ∧ before ≠ .resolving ∨ i + 1 = c.keys.length ∧ c.receiver = .resolving ∧ r = .idle) :
    Basic { c with writes := ws, receiver := r, writeOrdering := wo, bumped := b }
      (if after = .finished then owesOne ep else owesNothing) := by
  have hkeys' : Connection.keys { c with writes := ws, receiver := r, writeOrdering := wo, bumped := b } =
      c.keys.set i (ep, after) := hkeys
  obtain ⟨hi, hval⟩ := List.getElem?_eq_some_iff.mp hget
  have hmem : (ep, before) ∈ c.keys := List.mem_of_getElem? hget
  have hold : ∀ k ∈ c.keys.set i (ep, after), k ∈ c.keys ∨ k = (ep, after) :=
    fun k hk => List.mem_or_eq_of_mem_set hk
  refine ⟨h.sorted, h.named, ?_, ?_, ?_, h.flushLive, h.epochs, h.closed, ?_, ?_, ?_, ?_, ?_, h.settles, h.data, ?_⟩
  · rw [hkeys']
    intro k hk
    rcases hold k hk with hk | rfl
    · exact h.keysNamed k hk
    · exact h.keysNamed (ep, before) hmem
  · intro e he
    have hcount := h.counted e he
    simp only [Connection.refs, hkeys', List.countP_set hi, hval, owesNothing, Nat.add_zero] at hcount ⊢
    by_cases hid : ep = e.id
    · have hpos : 0 < c.keys.countP (unfinished e.id) :=
        List.countP_pos_iff.mpr ⟨(ep, before), hmem, by simp [unfinished, hid, hbefore]⟩
      by_cases hfin : after = .finished
      · simp only [unfinished, hid, hbefore, hfin, owesOne, ne_eq, not_false_eq_true, decide_true, Bool.and_self,
          ↓reduceIte, not_true_eq_false, decide_false, Bool.and_false, Bool.false_eq_true] at hpos hcount ⊢
        omega
      · simp only [unfinished, hid, hbefore, hfin, owesNothing, ne_eq, not_false_eq_true, decide_true, Bool.and_self,
          ↓reduceIte] at hpos hcount ⊢
        omega
    · have howed : (if after = EeState.finished then owesOne ep else owesNothing) e.id = 0 := by
        split
        · simp [owesOne, Ne.symm hid]
        · rfl
      rw [howed]
      simp only [unfinished, hid, decide_false, Bool.false_and, Bool.false_eq_true, ↓reduceIte] at hcount ⊢
      omega
  · rw [hkeys']
    intro k hk hne
    rcases hold k hk with hk | rfl
    · exact h.keyLive k hk hne
    · exact h.keyLive (ep, before) hmem hbefore
  · intro hhave
    have := h.busy hhave
    rcases hrecv with ⟨rfl, -⟩ | ⟨-, hr, -⟩
    · exact this
    · rw [hr] at this
      obtain ⟨hb | hb, -⟩ := this
      · cases hb
      · cases hb
  · intro hphase
    rcases hrecv with ⟨rfl, -⟩ | ⟨-, -, rfl⟩
    · exact h.closing hphase
    · rcases hphase with hp | hp
      · cases hp
      · cases hp
  · rw [hkeys']
    intro k hk
    rcases hold k hk with hk | rfl
    · exact h.conflicts k hk
    · exact hafter
  · rw [hkeys']
    intro j k hj hk
    rw [List.length_set]
    by_cases hij : i = j
    · subst hij
      rw [List.getElem?_set_self hi] at hj
      cases hj
      exact absurd hk hres
    · rw [List.getElem?_set_ne hij] at hj
      have := h.resolving j k hj hk
      rcases hrecv with ⟨rfl, -⟩ | ⟨hlast, -, -⟩
      · exact this
      · omega
  · intro hr
    rcases hrecv with ⟨rfl, hlive⟩ | ⟨-, -, hidle⟩
    · obtain ⟨k, hlast, hk⟩ := h.held hr
      rw [hkeys']
      refine ⟨k, ?_, hk⟩
      rw [List.getLast?_eq_getElem?, List.length_set]
      rw [List.getLast?_eq_getElem?] at hlast
      have hne : i ≠ c.keys.length - 1 := by
        intro hil
        rw [hil, hlast] at hget
        cases hget
        exact hlive hk
      rw [List.getElem?_set_ne hne]
      exact hlast
    · have hr' : r = .resolving := hr
      rw [hidle] at hr'
      cases hr'
  · rw [hkeys']
    intro a ha
    refine ⟨fun k hk he => ?_, (h.acked a ha).2⟩
    rcases hold k hk with hk | rfl
    · exact (h.acked a ha).1 k hk he
    · exact absurd ((h.acked a ha).1 (ep, before) hmem he) hbefore

/-- The method or what is on stable storage changes, or both. -/
theorem Basic.sameKeys {ws : List PeerReq} {b : Bool} {owed : Nat → Nat} (h : Basic c owed)
    (hkeys : ws.map (fun w => (w.epoch, w.state)) = c.keys) :
    Basic { c with writes := ws, writeOrdering := wo, bumped := b } owed := by
  refine h.update (g := fun e => e) SameEpoch.refl (by simp) rfl hkeys h.flushLive ?_
    ⟨rfl, rfl, rfl, rfl, rfl, rfl⟩ fun hc => hc
  intro e he
  have hrefs : Connection.refs { c with writes := ws, writeOrdering := wo, bumped := b } e.id = c.refs e.id := by
    unfold Connection.refs
    rw [show Connection.keys { c with writes := ws, writeOrdering := wo, bumped := b } = c.keys from hkeys]
  rw [hrefs]
  exact h.counted e he

theorem keys_set {st : EeState} {resub : Bool} :
    (c.writes.set i { w with state := st, resubmitted := resub }).map (fun w => (w.epoch, w.state)) =
      c.keys.set i (w.epoch, st) := by
  simp [Connection.keys, List.map_set]

/-- A write goes from one state to another. -/
theorem Basic.moveWrite (h : Basic c owesNothing) (hmove : c.moveWrite i before after = some (w, c'))
    (hbefore : before ≠ .finished ∧ before ≠ .resolving) (hafter : after ≠ .superseded) (hres : after ≠ .resolving) :
    Basic c' (if after = .finished then owesOne w.epoch else owesNothing) := by
  obtain ⟨hget, rfl, rfl⟩ := moveWrite_some hmove
  exact h.setKey (keys_getElem? hget) hbefore.1 keys_set hafter hres (Or.inl ⟨rfl, hbefore.2⟩)

theorem resolve_some (h : c.resolve after = some (w, c')) : c.receiver = .resolving ∧
    c.writes[c.writes.length - 1]? = some w ∧ w.state = .resolving ∧
      c' = { c with writes := c.writes.set (c.writes.length - 1) { w with state := after }, receiver := .idle } := by
  unfold Connection.resolve at h
  split at h
  · cases h
  · rename_i hr
    obtain ⟨⟨w', d⟩, hmove, heq⟩ := Option.map_eq_some_iff.mp h
    obtain ⟨hget, hstate, rfl⟩ := moveWrite_some hmove
    cases heq
    exact ⟨by simpa using hr, hget, hstate, rfl⟩

theorem Basic.resolve (h : Basic c owesNothing) (hmove : c.resolve after = some (w, c'))
    (hafter : after ≠ .superseded) (hres : after ≠ .resolving) :
    Basic c' (if after = .finished then owesOne w.epoch else owesNothing) := by
  obtain ⟨hr, hget, hstate, rfl⟩ := resolve_some hmove
  have hlen : 0 < c.writes.length := by
    obtain ⟨hlt, -⟩ := List.getElem?_eq_some_iff.mp hget
    omega
  have hlast : c.writes.length - 1 + 1 = c.keys.length := by
    simp only [Connection.keys, List.length_map]
    omega
  refine h.setKey (keys_getElem? hget) (by simp [hstate]) keys_set hafter hres (Or.inr ⟨hlast, hr, rfl⟩)

theorem dropWrite_some (h : c.dropWrite = some (w, c')) : c.receiver = .resolving ∧ c.writes.getLast? = some w ∧
    c' = { c with writes := c.writes.dropLast, receiver := .idle } := by
  unfold Connection.dropWrite at h
  split at h
  · rename_i hr hlast
    cases h
    exact ⟨hr, hlast, rfl⟩
  · cases h

/-- The write the receiver holds is freed. -/
theorem Basic.dropWrite (h : Basic c owesNothing) (hdrop : c.dropWrite = some (w, c')) :
    Basic c' (owesOne w.epoch) := by
  obtain ⟨hr, hlast, rfl⟩ := dropWrite_some hdrop
  obtain ⟨k, hk, hres⟩ := h.held hr
  have hkw : k = (w.epoch, w.state) := by
    simp only [Connection.keys, List.getLast?_map, hlast, Option.map_some, Option.some.injEq] at hk
    exact hk.symm
  subst hkw
  have hsplit : c.keys = c.keys.dropLast ++ [(w.epoch, w.state)] := (List.dropLast_append_getLast? _ hk).symm
  have hkeys : Connection.keys { c with writes := c.writes.dropLast, receiver := .idle } = c.keys.dropLast := by
    simp [Connection.keys, List.map_dropLast]
  have hmem : ∀ k ∈ c.keys.dropLast, k ∈ c.keys := fun k hk => List.dropLast_subset _ hk
  refine ⟨h.sorted, h.named, ?_, ?_, ?_, h.flushLive, h.epochs, h.closed, ?_, ?_, ?_, ?_, ?_, h.settles, h.data, ?_⟩
  · rw [hkeys]
    exact fun k hk => h.keysNamed k (hmem k hk)
  · intro e he
    have hcount := h.counted e he
    have hlen : c.keys.countP (unfinished e.id) =
        c.keys.dropLast.countP (unfinished e.id) + if w.epoch = e.id then 1 else 0 := by
      conv_lhs => rw [hsplit]
      have hne : w.state ≠ .finished := by
        dsimp only at hres
        simp [hres]
      simp only [List.countP_append, List.countP_singleton, unfinished, hne, ne_eq, not_false_eq_true, decide_true,
        Bool.and_true, decide_eq_true_eq]
    simp only [Connection.refs, hkeys, hlen, owesNothing, owesOne] at hcount ⊢
    by_cases hid : w.epoch = e.id
    · simp only [hid, ↓reduceIte] at hcount ⊢
      omega
    · simp only [hid, Ne.symm hid, ↓reduceIte] at hcount ⊢
      omega
  · rw [hkeys]
    exact fun k hk hne => h.keyLive k (hmem k hk) hne
  · intro hhave
    have := (h.busy hhave).1
    rw [hr] at this
    rcases this with hp | hp
    · cases hp
    · cases hp
  · intro hphase
    rcases hphase with hp | hp
    · cases hp
    · cases hp
  · rw [hkeys]
    exact fun k hk => h.conflicts k (hmem k hk)
  · rw [hkeys]
    intro j k hj hk
    obtain ⟨hlt, -⟩ := List.getElem?_eq_some_iff.mp hj
    rw [List.length_dropLast] at hlt
    rw [List.getElem?_dropLast, if_pos hlt] at hj
    have := (h.resolving j k hj hk).2
    omega
  · intro hidle
    cases hidle
  · rw [hkeys]
    exact fun a ha => ⟨fun k hk he => (h.acked a ha).1 k (hmem k hk) he, (h.acked a ha).2⟩

theorem Basic.issueFlush (h : Basic c owesNothing) : Basic (c.issueFlush failed) owesNothing := by
  unfold Connection.issueFlush
  split
  · exact h
  · split
    · exact h.sameKeys rfl
    · refine h.sameKeys ?_
      simp [Connection.keys, PeerReq.flushed, Function.comp_def]

theorem Basic.flushAfterEpoch (h : Basic c owesNothing) : Basic (drbdFlushAfterEpoch c id failed) owesNothing :=
  h.issueFlush.barrierDone

theorem Basic.endio (h : Basic c owesNothing) (hstep : endio c i failed = some c') : Basic c' owesNothing := by
  unfold PeerEpoch.endio at hstep
  split at hstep
  · cases hstep
  · rename_i w d hmove
    have hd := h.moveWrite hmove (by simp) (by simp) (by simp)
    split at hstep
    · cases hstep
      split
      · refine hd.sameKeys (List.ext_getElem? fun j => ?_)
        simp only [Connection.keys, List.getElem?_map, List.getElem?_mapIdx, Option.map_map, Function.comp_def]
      · exact hd
    · split at hstep
      · cases hstep
        obtain ⟨hget, hstate, -⟩ := moveWrite_some hmove
        exact h.setKey (keys_getElem? hget) (by simp [hstate]) keys_set (by simp) (by simp)
          (Or.inl ⟨rfl, by simp [hstate]⟩)
      · cases hstep
        exact hd

theorem Basic.eEndBlock (h : Basic c owesNothing) (hstep : eEndBlock c i cleanup = some c') : Basic c' owesNothing := by
  unfold PeerEpoch.eEndBlock at hstep
  split at hstep
  · cases hstep
  · rename_i w _ hmove
    obtain ⟨hget, hstate, -⟩ := moveWrite_some hmove
    cases hstep
    refine Basic.put ?_
    have hset : ∀ {d : Connection}, Basic d owesNothing → d.writes = c.writes →
        Basic { d with writes := d.writes.set i { w with state := .finished } } (owesOne w.epoch) := by
      intro d hd hw
      have hget' : d.writes[i]? = some w := hw ▸ hget
      exact hd.setKey (keys_getElem? hget') (by simp [hstate]) keys_set (by simp) (by simp)
        (Or.inl ⟨rfl, by simp [hstate]⟩)
    split
    · exact hset h.barrierDone drbdMayFinishEpoch_writes
    · exact hset h rfl

/-! ## The flush -/

theorem Basic.setIssued (h : Basic c owesNothing) : Basic (c.setIssued id) owesNothing := by
  refine h.update (g := modifyId id fun e => { e with barrierInNextEpochIssued := true })
    (SameEpoch.modifyId fun e => ⟨rfl, rfl, rfl, rfl⟩) rfl rfl rfl h.flushLive ?_ ⟨rfl, rfl, rfl, rfl, rfl, rfl⟩
    fun hc => hc
  intro e he
  have hactive : (modifyId id (fun e => { e with barrierInNextEpochIssued := true }) e).active = e.active := by
    unfold modifyId
    split <;> rfl
  rw [hactive]
  exact h.counted e he

theorem Basic.popFlush {rest : List Nat} (h : Basic c owesNothing) (hf : c.flushWork = id :: rest) :
    Basic { c with flushWork := rest } (owesOne id) := by
  refine h.update (g := fun e => e) SameEpoch.refl (by simp) rfl rfl ?_ ?_ ⟨rfl, rfl, rfl, rfl, rfl, rfl⟩ fun hc => hc
  · exact fun f hmem => h.flushLive f (by rw [hf]; exact List.mem_cons_of_mem id hmem)
  · intro e he
    have hcount := h.counted e he
    simp only [Connection.refs, Connection.keys, hf, List.count_cons, beq_iff_eq, owesNothing, owesOne] at hcount ⊢
    by_cases hid : id = e.id
    · simp only [hid, ↓reduceIte] at hcount ⊢
      omega
    · simp only [hid, Ne.symm hid, ↓reduceIte] at hcount ⊢
      omega

theorem flushAfterEpoch_flushWork : ∃ t, (drbdFlushAfterEpoch c id failed).flushWork = c.flushWork ++ t := by
  have hsame : (c.issueFlush failed).flushWork = c.flushWork := by
    unfold Connection.issueFlush
    split
    · rfl
    · split <;> rfl
  rw [← hsame]
  exact drbdMayFinishEpoch_flushWork

theorem Basic.wFlush (h : Basic c owesNothing) (hstep : wFlush c failed cleanup = some c') : Basic c' owesNothing := by
  unfold PeerEpoch.wFlush at hstep
  split at hstep
  · cases hstep
  · rename_i id rest hf
    cases hstep
    refine Basic.put ?_
    split
    · have hpop := h.popFlush hf
      rw [hf]
      exact hpop
    · have hb : Basic (drbdFlushAfterEpoch (c.setIssued id) id failed) owesNothing := h.setIssued.flushAfterEpoch
      obtain ⟨t, ht⟩ := @flushAfterEpoch_flushWork (c.setIssued id) id failed
      rw [show (c.setIssued id).flushWork = c.flushWork from rfl, hf, List.cons_append] at ht
      rw [ht]
      exact hb.popFlush ht

/-! ## Packets -/

theorem Basic.open_of_idle {owed : Nat → Nat} (h : Basic c owed) (hidle : c.receiver = .idle) :
    c.currentEpoch.haveBarrierNumber = false := by
  cases hb : c.currentEpoch.haveBarrierNumber with
  | false => rfl
  | true =>
      rcases (h.busy hb).1 with hr | hr
      · rw [hidle] at hr
        cases hr
      · rw [hidle] at hr
        cases hr

theorem Basic.addWrite (h : Basic c owesNothing) (hidle : c.receiver = .idle) (hclean : c.cleanedUp = false) :
    Basic (c.addWrite barrier) owesNothing := by
  have hopen := h.open_of_idle hidle
  have hkeys : (c.addWrite barrier).keys = c.keys ++ [(c.currentEpoch.id, .resolving)] := by
    simp [Connection.addWrite, Connection.keys]
  have hids : (c.addWrite barrier).all.map (·.id) = c.all.map (·.id) := by
    simp [Connection.addWrite, Connection.all]
  have hP : ∀ {P : Nat → Prop}, (∀ e ∈ c.all, P e.id) → ∀ e ∈ (c.addWrite barrier).all, P e.id := by
    intro P hall e he
    have hmem : e.id ∈ c.all.map (·.id) := hids ▸ List.mem_map_of_mem he
    obtain ⟨d, hd, hid⟩ := List.mem_map.mp hmem
    exact hid ▸ hall d hd
  have hex : ∀ {id}, (∃ e ∈ c.all, e.id = id) → ∃ e ∈ (c.addWrite barrier).all, e.id = id := by
    intro id he
    obtain ⟨e, he, rfl⟩ := he
    have hmem : e.id ∈ (c.addWrite barrier).all.map (·.id) := by
      rw [hids]
      exact List.mem_map_of_mem he
    exact List.mem_map.mp hmem
  refine ⟨?_, ?_, ?_, ?_, ?_, ?_, h.epochs, h.closed, ?_, ?_, ?_, ?_, ?_, ?_, ?_, ?_⟩
  · have hsorted : (c.all.map (·.id)).Pairwise (· < ·) := List.pairwise_map.mpr h.sorted
    rw [← hids] at hsorted
    exact List.pairwise_map.mp hsorted
  · exact hP (P := (· < c.nextId)) h.named
  · rw [hkeys]
    intro k hk
    rcases List.mem_append.mp hk with hk | hk
    · exact h.keysNamed k hk
    · cases List.mem_singleton.mp hk
      exact h.named _ (currentEpoch_mem c)
  · intro e he
    have hrefs : (c.addWrite barrier).refs e.id = c.refs e.id + if c.currentEpoch.id = e.id then 1 else 0 := by
      simp only [Connection.refs, hkeys, List.countP_append, List.countP_singleton, unfinished]
      simp only [Connection.addWrite, ne_eq, reduceCtorEq, not_false_eq_true, decide_true, Bool.and_true,
        decide_eq_true_eq]
      omega
    rw [hrefs]
    rcases List.mem_append.mp he with he | he
    · have hcount := h.counted e (List.mem_append_left _ he)
      have hne : c.currentEpoch.id ≠ e.id :=
        Nat.ne_of_gt ((List.pairwise_append.mp h.sorted).2.2 e he c.currentEpoch (List.mem_singleton_self _))
      rw [if_neg hne]
      exact hcount
    · have hcount := h.counted c.currentEpoch (currentEpoch_mem c)
      cases List.mem_singleton.mp he
      change c.currentEpoch.active + 1 = c.refs c.currentEpoch.id +
        (if c.currentEpoch.id = c.currentEpoch.id then 1 else 0) + owesNothing c.currentEpoch.id
      rw [if_pos rfl]
      omega
  · rw [hkeys]
    intro k hk hne
    rcases List.mem_append.mp hk with hk | hk
    · exact hex (h.keyLive k hk hne)
    · cases List.mem_singleton.mp hk
      exact hex ⟨_, currentEpoch_mem c, rfl⟩
  · exact fun f hf => hex (h.flushLive f hf)
  · intro hhave
    have : c.currentEpoch.haveBarrierNumber = true := hhave
    rw [hopen] at this
    cases this
  · intro hphase
    rcases hphase with hp | hp
    · cases hp
    · cases hp
  · rw [hkeys]
    intro k hk
    rcases List.mem_append.mp hk with hk | hk
    · exact h.conflicts k hk
    · cases List.mem_singleton.mp hk
      simp
  · rw [hkeys]
    intro j k hj hk
    refine ⟨rfl, ?_⟩
    rw [List.length_append, List.length_singleton]
    by_cases hlt : j < c.keys.length
    · rw [List.getElem?_append_left hlt] at hj
      have := (h.resolving j k hj hk).1
      rw [hidle] at this
      cases this
    · have hbound : j < (c.keys ++ [(c.currentEpoch.id, EeState.resolving)]).length :=
        (List.getElem?_eq_some_iff.mp hj).1
      rw [List.length_append, List.length_singleton] at hbound
      omega
  · rw [hkeys]
    exact fun _ => ⟨_, List.getLast?_append_cons _ _ _, rfl⟩
  · obtain ⟨settled, h₁, h₂, h₃⟩ := h.settles
    refine ⟨settled, ?_, h₂, h₃⟩
    have hsame : openBarriers (c.addWrite barrier).all = openBarriers c.all := by
      simp [Connection.all, Connection.addWrite, openBarriers, hopen]
    rw [hsame]
    exact h₁
  · intro _
    have := h.data hclean
    rw [hopen] at this
    change c.dataCount + 1 = if c.currentEpoch.haveBarrierNumber = true then 0 else c.currentEpoch.epochSize + 1
    rw [hopen]
    simp only [Bool.false_eq_true, ↓reduceIte] at this ⊢
    omega
  · rw [hkeys]
    intro a ha
    refine ⟨fun k hk hep => ?_, hP (P := (a.epoch < ·)) (h.acked a ha).2⟩
    rcases List.mem_append.mp hk with hk | hk
    · exact (h.acked a ha).1 k hk hep
    · cases List.mem_singleton.mp hk
      exact absurd hep (Nat.ne_of_gt ((h.acked a ha).2 _ (currentEpoch_mem c)))

theorem Basic.receiveData (h : Basic c owesNothing) (hidle : c.receiver = .idle) (hclean : c.cleanedUp = false) :
    Basic (receiveData c) owesNothing := by
  unfold PeerEpoch.receiveData
  split
  · split
    · exact h.setIssued.addWrite hidle hclean
    · exact h.addWrite hidle hclean
  · exact h.addWrite hidle hclean

/-- The current epoch changes, the others stay as they are. -/
theorem Basic.updateCurrent {cur : DrbdEpoch} {bs : List (Nat × Nat)} {n : Nat} {r : Receiver}
    (h : Basic c owesNothing) (hidle : c.receiver = .idle) (hid : cur.id = c.currentEpoch.id)
    (hactive : cur.active = c.currentEpoch.active)
    (hbusy : cur.haveBarrierNumber = true → (r = .draining ∨ r = .allocating) ∧ cur.epochSize ≠ 0)
    (hclosing : r = .draining ∨ r = .allocating → cur.epochSize ≠ 0 → cur.haveBarrierNumber = true)
    (hbs : bs ++ openBarriers [c.currentEpoch] = c.barriers ++ openBarriers [cur])
    (hdata : c.cleanedUp = false → n = if cur.haveBarrierNumber then 0 else cur.epochSize) (hres : r ≠ .resolving) :
    Basic { c with currentEpoch := cur, barriers := bs, dataCount := n, receiver := r } owesNothing := by
  have hopen := h.open_of_idle hidle
  have hids : (Connection.all
      { c with currentEpoch := cur, barriers := bs, dataCount := n, receiver := r }).map (·.id) =
      c.all.map (·.id) := by
    simp [Connection.all, hid]
  have hP : ∀ {P : Nat → Prop}, (∀ e ∈ c.all, P e.id) →
      ∀ e ∈ Connection.all { c with currentEpoch := cur, barriers := bs, dataCount := n, receiver := r }, P e.id := by
    intro P hall e he
    have hmem : e.id ∈ c.all.map (·.id) := hids ▸ List.mem_map_of_mem he
    obtain ⟨d, hd, hde⟩ := List.mem_map.mp hmem
    exact hde ▸ hall d hd
  have hex : ∀ {id}, (∃ e ∈ c.all, e.id = id) →
      ∃ e ∈ Connection.all { c with currentEpoch := cur, barriers := bs, dataCount := n, receiver := r },
        e.id = id := by
    intro id he
    obtain ⟨e, he, rfl⟩ := he
    have hmem := List.mem_map_of_mem (f := (·.id)) he
    rw [← hids] at hmem
    exact List.mem_map.mp hmem
  refine ⟨?_, ?_, h.keysNamed, ?_, ?_, ?_, h.epochs, h.closed, hbusy, hclosing, h.conflicts, ?_,
    fun hr => absurd hr hres, ?_,
    hdata, ?_⟩
  · have hsorted : (c.all.map (·.id)).Pairwise (· < ·) := List.pairwise_map.mpr h.sorted
    rw [← hids] at hsorted
    exact List.pairwise_map.mp hsorted
  · exact hP (P := (· < c.nextId)) h.named
  · intro e he
    rcases List.mem_append.mp he with he | he
    · exact h.counted e (List.mem_append_left _ he)
    · cases List.mem_singleton.mp he
      change cur.active = c.refs cur.id + owesNothing cur.id
      rw [hactive, hid]
      exact h.counted c.currentEpoch (currentEpoch_mem c)
  · exact fun k hk hne => hex (h.keyLive k hk hne)
  · exact fun f hf => hex (h.flushLive f hf)
  · intro j k hj hk
    have := (h.resolving j k hj hk).1
    rw [hidle] at this
    cases this
  · obtain ⟨settled, h₁, h₂, h₃⟩ := h.settles
    have happend : ∀ xs ys, openBarriers (xs ++ ys) = openBarriers xs ++ openBarriers ys := by simp [openBarriers]
    refine ⟨settled, ?_, h₂, h₃⟩
    rw [openBarriers_singleton_open hopen, List.append_nil] at hbs
    unfold Connection.all at h₁ ⊢
    dsimp only
    rw [hbs, h₁, happend, happend, openBarriers_singleton_open hopen, List.append_nil, List.append_assoc]
  · exact fun a ha => ⟨(h.acked a ha).1, hP (P := (a.epoch < ·)) (h.acked a ha).2⟩

theorem Basic.dataNoDisk (h : Basic c owesNothing) (hidle : c.receiver = .idle) (hclean : c.cleanedUp = false) :
    Basic { c with
      currentEpoch := { c.currentEpoch with epochSize := c.currentEpoch.epochSize + 1 }
      dataCount := c.dataCount + 1 } owesNothing := by
  have hopen := h.open_of_idle hidle
  have hdata := h.data hclean
  refine h.updateCurrent hidle rfl rfl ?_ ?_ ?_ ?_ (by simp [hidle])
  · intro hhave
    rw [show c.currentEpoch.haveBarrierNumber = true from hhave] at hopen
    cases hopen
  · intro hphase
    rw [hidle] at hphase
    rcases hphase with hp | hp
    · cases hp
    · cases hp
  · rw [openBarriers_singleton_open hopen]
    simp [openBarriers, hopen]
  · intro _
    rw [hopen] at hdata ⊢
    simp only [Bool.false_eq_true, ↓reduceIte] at hdata ⊢
    omega

/-- A receiver that is not resolving conflicts moves on. -/
theorem Basic.setReceiver {r : Receiver} (h : Basic c owesNothing) (hres : c.receiver ≠ .resolving)
    (hbusy : c.currentEpoch.haveBarrierNumber = true → r = .draining ∨ r = .allocating)
    (hclosing : r = .draining ∨ r = .allocating → c.receiver = .draining ∨ c.receiver = .allocating)
    (hnew : r ≠ .resolving) : Basic { c with receiver := r } owesNothing := by
  refine ⟨h.sorted, h.named, h.keysNamed, h.counted, h.keyLive, h.flushLive, h.epochs, h.closed,
    fun hb => ⟨hbusy hb, (h.busy hb).2⟩, fun hr => h.closing (hclosing hr), h.conflicts, ?_,
    fun hr => absurd hr hnew, h.settles, h.data, h.acked⟩
  exact fun j k hj hk => absurd (h.resolving j k hj hk).1 hres

theorem Basic.noteBarrier (nr : Nat) (h : Basic c owesNothing) (hidle : c.receiver = .idle)
    (hclean : c.cleanedUp = false)
    (hsize : c.currentEpoch.epochSize ≠ 0) :
    Basic ((c.noteBarrier nr).afterEvent c.currentEpoch.id .gotBarrierNr false) owesNothing := by
  have hdata := h.data hclean
  have hopen := h.open_of_idle hidle
  have hne : ∀ e ∈ c.older, e.id ≠ c.currentEpoch.id := fun e he =>
    Nat.ne_of_lt ((List.pairwise_append.mp h.sorted).2.2 e he c.currentEpoch (List.mem_singleton_self _))
  have holder : ∀ f : DrbdEpoch → DrbdEpoch, c.older.map (modifyId c.currentEpoch.id f) = c.older := by
    intro f
    have hsame := List.map_congr_left (f := modifyId c.currentEpoch.id f) (g := fun e => e)
      (fun e he => modifyId_of_ne (hne e he))
    rw [hsame, List.map_id']
  unfold Connection.afterEvent Connection.modify Connection.noteBarrier modifyId
  dsimp only
  rw [if_pos rfl, Bool.or_false]
  unfold modifyId at holder
  rw [holder]
  refine h.updateCurrent hidle rfl rfl ?_ ?_ ?_ ?_ (by simp)
  · exact fun _ => ⟨Or.inr rfl, hsize⟩
  · exact fun _ _ => rfl
  · rw [openBarriers_singleton_open hopen, List.append_nil, hdata, hopen]
    rfl
  · exact fun _ => rfl

theorem Basic.receiveBarrier (h : Basic c owesNothing) (hidle : c.receiver = .idle) (hclean : c.cleanedUp = false)
    (hsize : c.currentEpoch.epochSize ≠ 0) : Basic (receiveBarrier c nr) owesNothing := by
  have hfin := (h.noteBarrier nr hidle hclean hsize).finish
  have hrecv : (drbdMayFinishEpoch (c.noteBarrier nr) c.currentEpoch.id .gotBarrierNr false).receiver = .allocating :=
    drbdMayFinishEpoch_receiver
  unfold PeerEpoch.receiveBarrier
  dsimp only
  split
  · rename_i hne
    have hnew := drbdMayFinishEpoch_recycled hne
    refine hfin.setReceiver (by simp [hrecv]) (fun hb => ?_) (fun hr => ?_) (by simp)
    · rw [hnew.1] at hb
      cases hb
    · rcases hr with hr | hr
      · cases hr
      · cases hr
  · split
    · exact hfin
    · exact hfin.setIssued.setReceiver (by simp [Connection.setIssued, Connection.modify, hrecv])
        (fun _ => Or.inl rfl) (fun _ => Or.inr hrecv) (by simp)

theorem issueFlush_same : (c.issueFlush failed).currentEpoch = c.currentEpoch ∧
    (c.issueFlush failed).receiver = c.receiver ∧ (c.issueFlush failed).older = c.older := by
  unfold Connection.issueFlush
  split
  · exact ⟨rfl, rfl, rfl⟩
  · split <;> exact ⟨rfl, rfl, rfl⟩

theorem flushAfterEpoch_recycled (h : (drbdFlushAfterEpoch c id failed).currentEpoch.id ≠ c.currentEpoch.id) :
    (drbdFlushAfterEpoch c id failed).currentEpoch.haveBarrierNumber = false ∧
      (drbdFlushAfterEpoch c id failed).currentEpoch.epochSize = 0 := by
  refine drbdMayFinishEpoch_recycled ?_
  rw [issueFlush_same.1]
  exact h

theorem Basic.barrierDrained (h : Basic c owesNothing) (hdrain : c.receiver = .draining) :
    Basic (barrierDrained c failed) owesNothing := by
  have halloc : Basic { c with receiver := .allocating } owesNothing :=
    h.setReceiver (by simp [hdrain]) (fun _ => Or.inr rfl) (fun _ => Or.inl hdrain) (by simp)
  have hfin : Basic (drbdFlushAfterEpoch { c with receiver := .allocating } c.currentEpoch.id failed) owesNothing :=
    halloc.flushAfterEpoch
  have hrecv : (drbdFlushAfterEpoch { c with receiver := .allocating } c.currentEpoch.id failed).receiver =
      .allocating :=
    drbdMayFinishEpoch_receiver.trans issueFlush_same.2.1
  unfold PeerEpoch.barrierDrained
  dsimp only
  split
  · rename_i hne
    have hnew := flushAfterEpoch_recycled (c := { c with receiver := .allocating }) hne
    refine hfin.setReceiver (by simp [hrecv]) (fun hb => ?_) (fun _ => Or.inr hrecv) (by simp)
    rw [hnew.1] at hb
    cases hb
  · exact hfin

theorem Basic.barrierAllocated (h : Basic c owesNothing) (halloc : c.receiver = .allocating) :
    Basic (barrierAllocated c) owesNothing := by
  unfold PeerEpoch.barrierAllocated
  split
  · rename_i hsize
    refine h.setReceiver (by simp [halloc]) (fun hb => absurd hsize (h.busy hb).2) (fun hr => ?_) (by simp)
    rcases hr with hr | hr
    · cases hr
    · cases hr
  · rename_i hsize
    have hhave := h.closing (Or.inr halloc) hsize
    have hnew : c.refs c.nextId = 0 := by
      refine refs_of_unnamed (fun k hk => Nat.ne_of_lt (h.keysNamed k hk)) fun hf => ?_
      obtain ⟨e, he, hid⟩ := h.flushLive _ hf
      have := h.named e he
      omega
    refine ⟨?_, ?_, ?_, ?_, ?_, ?_, ?_, ?_, ?_, ?_, h.conflicts, ?_, fun hr => (by cases hr), ?_, ?_, ?_⟩
    · refine List.pairwise_append.mpr ⟨h.sorted, List.pairwise_singleton _ _, fun a ha b hb => ?_⟩
      cases List.mem_singleton.mp hb
      exact h.named a ha
    · intro e he
      rcases List.mem_append.mp he with he | he
      · exact Nat.lt_succ_of_lt (h.named e he)
      · cases List.mem_singleton.mp he
        exact Nat.lt_succ_self _
    · exact fun k hk => Nat.lt_succ_of_lt (h.keysNamed k hk)
    · intro e he
      rcases List.mem_append.mp he with he | he
      · exact h.counted e he
      · cases List.mem_singleton.mp he
        change 0 = c.refs c.nextId + owesNothing c.nextId
        rw [hnew]
        rfl
    · intro k hk hne
      obtain ⟨e, he, hid⟩ := h.keyLive k hk hne
      exact ⟨e, List.mem_append_left _ he, hid⟩
    · intro f hf
      obtain ⟨e, he, hid⟩ := h.flushLive f hf
      exact ⟨e, List.mem_append_left _ he, hid⟩
    · have := h.epochs
      simp only [List.length_append, List.length_singleton]
      omega
    · intro e he
      rcases List.mem_append.mp he with he | he
      · exact h.closed e he
      · cases List.mem_singleton.mp he
        exact ⟨hhave, hsize⟩
    · intro hb
      cases hb
    · intro _ hz
      exact absurd rfl hz
    · intro j k hj hk
      have := (h.resolving j k hj hk).1
      rw [halloc] at this
      cases this
    · obtain ⟨settled, h₁, h₂, h₃⟩ := h.settles
      refine ⟨settled, ?_, h₂, h₃⟩
      change c.barriers = settled.map Prod.fst ++ openBarriers (c.all ++ [DrbdEpoch.fresh c.nextId])
      rw [h₁]
      simp [openBarriers, DrbdEpoch.fresh]
    · intro hc
      have := h.data hc
      rw [hhave] at this
      exact this
    · intro a ha
      refine ⟨(h.acked a ha).1, fun e he => ?_⟩
      rcases List.mem_append.mp he with he | he
      · exact (h.acked a ha).2 e he
      · cases List.mem_singleton.mp he
        exact Nat.lt_trans ((h.acked a ha).2 _ (currentEpoch_mem c)) (h.named _ (currentEpoch_mem c))

/-! ## A step -/

/-- Packets come only before a cleanup, a barrier only after a write, and no write is refused. -/
def Orderly (c : Connection) : Event → Prop
  | .data | .dataNoDisk => c.cleanedUp = false
  | .barrier _ => c.cleanedUp = false ∧ c.currentEpoch.epochSize ≠ 0
  | .supersede => False
  | _ => True

instance (c : Connection) : ∀ e, Decidable (Orderly c e)
  | .data | .dataNoDisk => inferInstanceAs (Decidable (_ = _))
  | .barrier _ => inferInstanceAs (Decidable (_ ∧ _))
  | .supersede => inferInstanceAs (Decidable False)
  | .submit | .interrupted | .sendSuperseded _ | .endio _ _ | .reissue _ | .reissueFailed _ | .endBlock _ _
  | .flush _ _ | .drained _ | .allocated | .bump _ _ => inferInstanceAs (Decidable True)

theorem step_basic {ev : Event} (h : Basic c owesNothing) (hord : Orderly c ev) (hstep : step c ev = some c') :
    Basic c' owesNothing := by
  cases ev with
  | data =>
      simp only [step] at hstep
      split at hstep
      · cases hstep
        exact h.receiveData (by assumption) hord
      · cases hstep
  | dataNoDisk =>
      simp only [step] at hstep
      split at hstep
      · cases hstep
        exact h.dataNoDisk (by assumption) hord
      · cases hstep
  | submit =>
      obtain ⟨⟨w, d⟩, hres, rfl⟩ := Option.map_eq_some_iff.mp hstep
      exact h.resolve hres (by simp) (by simp)
  | supersede => exact absurd hord id
  | interrupted =>
      obtain ⟨⟨w, d⟩, hdrop, rfl⟩ := Option.map_eq_some_iff.mp hstep
      exact (h.dropWrite hdrop).put
  | sendSuperseded i =>
      obtain ⟨⟨w, d⟩, hmove, rfl⟩ := Option.map_eq_some_iff.mp hstep
      obtain ⟨hget, hstate, -⟩ := moveWrite_some hmove
      exact absurd hstate (h.conflicts _ (List.mem_of_getElem? (keys_getElem? hget)))
  | endio i failed => exact h.endio hstep
  | reissue i =>
      obtain ⟨⟨w, d⟩, hmove, rfl⟩ := Option.map_eq_some_iff.mp hstep
      exact h.moveWrite hmove (by simp) (by simp) (by simp)
  | reissueFailed i =>
      obtain ⟨⟨w, d⟩, hmove, rfl⟩ := Option.map_eq_some_iff.mp hstep
      exact Basic.put (h.moveWrite hmove (by simp) (by simp) (by simp))
  | endBlock i cancel => exact h.eEndBlock hstep
  | flush failed cleanup => exact h.wFlush hstep
  | barrier nr =>
      simp only [step] at hstep
      split at hstep
      · cases hstep
        exact h.receiveBarrier (by assumption) hord.1 hord.2
      · cases hstep
  | drained failed =>
      simp only [step, Bool.and_eq_true, decide_eq_true_eq] at hstep
      split at hstep
      · rename_i hd
        cases hstep
        exact h.barrierDrained hd.1
      · cases hstep
  | allocated =>
      simp only [step] at hstep
      split at hstep
      · cases hstep
        exact h.barrierAllocated (by assumption)
      · cases hstep
  | bump wo allowed =>
      cases hstep
      exact h.sameKeys rfl

end Drbd.PeerEpoch
