import Drbd.PeerEpoch.Lemmas.Finish

/-!
# References, names and acks

What holds in every run, cleanups and changes of the method included: the active count of an epoch is the
number of references to it, and the acks are those of the barriers, oldest first.
-/

namespace Drbd.PeerEpoch

variable {c : Connection} {e : DrbdEpoch} {rest : List DrbdEpoch} {id i nr : Nat} {cleanup : Bool} {ev : EpochEvent}
  {owed : Nat → Nat} {w : PeerReq} {before after : EeState}

/-- The epoch and state of each write: stable storage does not matter here. -/
def Connection.keys (c : Connection) : List (Nat × EeState) :=
  c.writes.map fun w => (w.epoch, w.state)

def unfinished (id : Nat) (k : Nat × EeState) : Bool :=
  k.1 = id && k.2 ≠ .finished

/-- Writes not yet finished, and queued flushes. -/
def Connection.refs (c : Connection) (id : Nat) : Nat :=
  c.keys.countP (unfinished id) + c.flushWork.count id

/-- The barriers received for epochs in the list. -/
def openBarriers (l : List DrbdEpoch) : List (Nat × Nat) :=
  (l.filter (·.haveBarrierNumber)).map fun e => (e.barrierNr, e.epochSize)

theorem openBarriers_singleton (h : e.haveBarrierNumber = true) : openBarriers [e] = [(e.barrierNr, e.epochSize)] := by
  simp [openBarriers, h]

theorem openBarriers_singleton_open (h : e.haveBarrierNumber = false) : openBarriers [e] = [] := by
  simp [openBarriers, h]

/-- The barriers are those of epochs that are finished, acked or not, and of epochs still in the list. -/
def Settles (c : Connection) (settled : List ((Nat × Nat) × Bool)) : Prop :=
  c.barriers = settled.map Prod.fst ++ openBarriers c.all ∧
    c.acks.map (fun a => (a.barrierNr, a.setSize)) = (settled.filter Prod.snd).map Prod.fst ∧
      (c.cleanedUp = false → ∀ s ∈ settled, s.2 = true)

/-- The invariant; `owed` are the references that are about to be put. -/
structure Basic (c : Connection) (owed : Nat → Nat) : Prop where
  sorted : c.all.Pairwise (·.id < ·.id)
  named : ∀ e ∈ c.all, e.id < c.nextId
  keysNamed : ∀ k ∈ c.keys, k.1 < c.nextId
  counted : ∀ e ∈ c.all, e.active = c.refs e.id + owed e.id
  keyLive : ∀ k ∈ c.keys, k.2 ≠ .finished → ∃ e ∈ c.all, e.id = k.1
  flushLive : ∀ id ∈ c.flushWork, ∃ e ∈ c.all, e.id = id
  epochs : c.epochs = c.older.length + 1
  closed : ∀ e ∈ c.older, e.haveBarrierNumber = true ∧ e.epochSize ≠ 0
  busy : c.currentEpoch.haveBarrierNumber = true →
    (c.receiver = .draining ∨ c.receiver = .allocating) ∧ c.currentEpoch.epochSize ≠ 0
  closing : c.receiver = .draining ∨ c.receiver = .allocating → c.currentEpoch.epochSize ≠ 0 →
    c.currentEpoch.haveBarrierNumber = true
  conflicts : ∀ k ∈ c.keys, k.2 ≠ .superseded
  resolving : ∀ i k, c.keys[i]? = some k → k.2 = .resolving → c.receiver = .resolving ∧ i + 1 = c.keys.length
  held : c.receiver = .resolving → ∃ k, c.keys.getLast? = some k ∧ k.2 = .resolving
  settles : ∃ settled, Settles c settled
  data : c.cleanedUp = false →
    c.dataCount = if c.currentEpoch.haveBarrierNumber then 0 else c.currentEpoch.epochSize
  acked : ∀ a ∈ c.acks, (∀ k ∈ c.keys, k.1 = a.epoch → k.2 = .finished) ∧ ∀ e ∈ c.all, a.epoch < e.id

def owesNothing : Nat → Nat := fun _ => 0

/-- One reference to one epoch. -/
def owesOne (id : Nat) : Nat → Nat := fun j => if j = id then 1 else 0

theorem basic_connected (wo : WriteOrdering) : Basic (connected wo) owesNothing := by
  refine ⟨?_, ?_, ?_, ?_, ?_, ?_, rfl, ?_, ?_, ?_, ?_, ?_, ?_, ⟨[], ?_⟩, ?_, ?_⟩
  all_goals simp [connected, Connection.all, Connection.keys, DrbdEpoch.fresh, Connection.refs, owesNothing,
    openBarriers,
    Settles]

/-! ## No reference left -/

theorem keys_finished_of_refs (h : c.refs id = 0) : ∀ k ∈ c.keys, k.1 = id → k.2 = .finished := by
  intro k hk he
  have hcount : c.keys.countP (unfinished id) = 0 := by
    unfold Connection.refs at h
    omega
  have := List.countP_eq_zero.mp hcount k hk
  by_contra hne
  exact this (by simp [unfinished, he, hne])

theorem flush_of_refs (h : c.refs id = 0) : id ∉ c.flushWork := by
  have hcount : c.flushWork.count id = 0 := by
    unfold Connection.refs at h
    omega
  exact List.count_eq_zero.mp hcount

theorem refs_of_unnamed (hk : ∀ k ∈ c.keys, k.1 ≠ id) (hf : id ∉ c.flushWork) : c.refs id = 0 := by
  have hcount : c.keys.countP (unfinished id) = 0 := by
    refine List.countP_eq_zero.mpr fun k hmem => ?_
    simp [unfinished, hk k hmem]
  simp [Connection.refs, hcount, List.count_eq_zero.mpr hf]

theorem Basic.refs_of_active (h : Basic c owesNothing) (he : e ∈ c.all) (hactive : e.active = 0) : c.refs e.id = 0 := by
  have := h.counted e he
  simp only [owesNothing] at this
  omega

theorem all_of_older (h : c.older = e :: rest) : c.all = e :: (rest ++ [c.currentEpoch]) := by
  simp [Connection.all, h]

theorem all_of_nil (h : c.older = []) : c.all = [c.currentEpoch] := by
  simp [Connection.all, h]

/-! ## Finishing -/

@[simp] theorem destroyOldest_all : (c.destroyOldest cleanup e rest).all = rest ++ [c.currentEpoch] := by
  unfold Connection.destroyOldest Connection.sendBAck Connection.all
  split <;> rfl

@[simp] theorem destroyOldest_keys : (c.destroyOldest cleanup e rest).keys = c.keys := by
  unfold Connection.destroyOldest Connection.sendBAck Connection.keys
  split <;> rfl

theorem destroyOldest_same : (c.destroyOldest cleanup e rest).flushWork = c.flushWork ∧
    (c.destroyOldest cleanup e rest).nextId = c.nextId ∧ (c.destroyOldest cleanup e rest).receiver = c.receiver ∧
    (c.destroyOldest cleanup e rest).cleanedUp = c.cleanedUp ∧
    (c.destroyOldest cleanup e rest).dataCount = c.dataCount ∧
    (c.destroyOldest cleanup e rest).barriers = c.barriers := by
  unfold Connection.destroyOldest Connection.sendBAck
  split <;> exact ⟨rfl, rfl, rfl, rfl, rfl, rfl⟩

theorem destroyOldest_acks : (c.destroyOldest cleanup e rest).acks =
    c.acks ++ if cleanup then [] else [⟨e.id, e.barrierNr, e.epochSize⟩] := by
  unfold Connection.destroyOldest Connection.sendBAck
  split
  · simp
  · rfl

theorem destroyOldest_refs : (c.destroyOldest cleanup e rest).refs id = c.refs id := by
  unfold Connection.refs
  rw [destroyOldest_keys, destroyOldest_same.1]

/-- An epoch that was finished settles the oldest open barrier. -/
theorem Settles.finish {settled : List ((Nat × Nat) × Bool)} {c' : Connection} (h : Settles c settled)
    (hopen : openBarriers c.all = (e.barrierNr, e.epochSize) :: openBarriers c'.all)
    (hacks : c'.acks = c.acks ++ if cleanup then [] else [⟨e.id, e.barrierNr, e.epochSize⟩])
    (hsame : c'.barriers = c.barriers) (hclean : c'.cleanedUp = c.cleanedUp)
    (hcleanup : cleanup = true → c.cleanedUp = true) :
    Settles c' (settled ++ [((e.barrierNr, e.epochSize), !cleanup)]) := by
  obtain ⟨hbar, hack, hall⟩ := h
  refine ⟨?_, ?_, fun hc s hs => ?_⟩
  · rw [hsame, hbar, hopen]
    simp
  · rw [hacks, List.map_append, hack]
    cases cleanup <;> simp
  · rw [hclean] at hc
    rcases List.mem_append.mp hs with hs | hs
    · exact hall hc s hs
    · cases List.mem_singleton.mp hs
      cases hcl : cleanup with
      | false => rfl
      | true =>
          rw [hcleanup hcl] at hc
          cases hc

theorem Basic.destroyOldest (h : Basic c owesNothing) (hold : c.older = e :: rest)
    (hv : verdict c.writeOrdering cleanup e = .finish) (hcleanup : cleanup = true → c.cleanedUp = true) :
    Basic (c.destroyOldest cleanup e rest) owesNothing := by
  have hall := all_of_older hold
  have hmem : e ∈ c.all := by simp [hall]
  have hsub : ∀ d ∈ rest ++ [c.currentEpoch], d ∈ c.all := fun d hd => by
    rw [hall]
    exact List.mem_cons_of_mem e hd
  have hrefs := h.refs_of_active hmem (verdict_finish hv).2.1
  have hfin := keys_finished_of_refs hrefs
  have hsorted := h.sorted
  rw [hall] at hsorted
  obtain ⟨hfirst, hsorted⟩ := List.pairwise_cons.mp hsorted
  obtain ⟨hfw, hnext, hrecv, hclean, hdata, hbar⟩ := @destroyOldest_same c e rest cleanup
  have hlive : ∀ {id}, (∃ d ∈ c.all, d.id = id) → id ≠ e.id → ∃ d ∈ rest ++ [c.currentEpoch], d.id = id := by
    intro id hd hne
    obtain ⟨d, hd, rfl⟩ := hd
    rw [hall] at hd
    rcases List.mem_cons.mp hd with rfl | hd
    · exact absurd rfl hne
    · exact ⟨d, hd, rfl⟩
  refine ⟨?_, ?_, ?_, ?_, ?_, ?_, ?_, ?_, ?_, ?_, ?_, ?_, ?_, ?_, ?_, ?_⟩
  · rw [destroyOldest_all]
    exact hsorted
  · rw [destroyOldest_all, hnext]
    exact fun d hd => h.named d (hsub d hd)
  · rw [destroyOldest_keys, hnext]
    exact h.keysNamed
  · rw [destroyOldest_all]
    intro d hd
    rw [destroyOldest_refs]
    exact h.counted d (hsub d hd)
  · rw [destroyOldest_all, destroyOldest_keys]
    intro k hk hne
    exact hlive (h.keyLive k hk hne) fun he => hne (hfin k hk he)
  · rw [destroyOldest_all, hfw]
    intro f hf
    refine hlive (h.flushLive f hf) fun he => ?_
    exact flush_of_refs hrefs (he ▸ hf)
  · have hcnt := h.epochs
    rw [hold] at hcnt
    unfold Connection.destroyOldest
    simp only [List.length_cons] at hcnt
    dsimp only
    omega
  · exact fun d hd => h.closed d (by rw [hold]; exact List.mem_cons_of_mem e hd)
  · rw [hrecv]
    unfold Connection.destroyOldest Connection.sendBAck
    split <;> exact h.busy
  · rw [hrecv]
    unfold Connection.destroyOldest Connection.sendBAck
    split <;> exact h.closing
  · rw [destroyOldest_keys]
    exact h.conflicts
  · rw [destroyOldest_keys, hrecv]
    exact h.resolving
  · rw [destroyOldest_keys, hrecv]
    exact h.held
  · obtain ⟨settled, hs⟩ := h.settles
    refine ⟨_, hs.finish ?_ destroyOldest_acks hbar hclean hcleanup⟩
    rw [destroyOldest_all, hall]
    simp [openBarriers, (h.closed e (by simp [hold])).1]
  · rw [hclean, hdata]
    unfold Connection.destroyOldest Connection.sendBAck
    split <;> exact h.data
  · rw [destroyOldest_all, destroyOldest_keys, destroyOldest_acks]
    intro a ha
    rcases List.mem_append.mp ha with ha | ha
    · exact ⟨(h.acked a ha).1, fun d hd => (h.acked a ha).2 d (hsub d hd)⟩
    · cases cleanup with
      | true => cases ha
      | false =>
          cases List.mem_singleton.mp ha
          exact ⟨hfin, hfirst⟩

@[simp] theorem recycle_older : (c.recycle cleanup).older = c.older := by
  unfold Connection.recycle Connection.sendBAck
  split <;> rfl

@[simp] theorem recycle_keys : (c.recycle cleanup).keys = c.keys := by
  unfold Connection.recycle Connection.sendBAck Connection.keys
  split <;> rfl

theorem recycle_same : (c.recycle cleanup).flushWork = c.flushWork ∧ (c.recycle cleanup).receiver = c.receiver ∧
    (c.recycle cleanup).cleanedUp = c.cleanedUp ∧ (c.recycle cleanup).dataCount = c.dataCount ∧
    (c.recycle cleanup).barriers = c.barriers ∧ (c.recycle cleanup).epochs = c.epochs := by
  unfold Connection.recycle Connection.sendBAck
  split <;> exact ⟨rfl, rfl, rfl, rfl, rfl, rfl⟩

theorem recycle_acks : (c.recycle cleanup).acks = c.acks ++
    if cleanup then [] else [⟨c.currentEpoch.id, c.currentEpoch.barrierNr, c.currentEpoch.epochSize⟩] := by
  unfold Connection.recycle Connection.sendBAck
  split
  · simp
  · rfl

theorem recycle_refs : (c.recycle cleanup).refs id = c.refs id := by
  unfold Connection.refs
  rw [recycle_keys, recycle_same.1]

theorem Basic.recycle (h : Basic c owesNothing) (hold : c.older = [])
    (hv : verdict c.writeOrdering cleanup c.currentEpoch = .finish) (hcleanup : cleanup = true → c.cleanedUp = true) :
    Basic (c.recycle cleanup) owesNothing := by
  obtain ⟨-, hactive, hhave, -⟩ := verdict_finish hv
  have hrefs := h.refs_of_active (currentEpoch_mem c) hactive
  have hall : (c.recycle cleanup).all = [(c.recycle cleanup).currentEpoch] := all_of_nil (by simpa using hold)
  have hsole := all_of_nil hold
  have hdead : ∀ {id}, (∃ d ∈ c.all, d.id = id) → id = c.currentEpoch.id := by
    intro id hd
    obtain ⟨d, hd, rfl⟩ := hd
    rw [hsole] at hd
    cases List.mem_singleton.mp hd
    rfl
  have hkeys : ∀ k ∈ c.keys, k.2 = .finished := by
    intro k hk
    by_contra hne
    exact hne (keys_finished_of_refs hrefs k hk (hdead (h.keyLive k hk hne)))
  have hflush : ∀ f, f ∉ c.flushWork := by
    intro f hf
    exact flush_of_refs hrefs (hdead (h.flushLive f hf) ▸ hf)
  have hnew : c.refs c.nextId = 0 :=
    refs_of_unnamed (fun k hk => Nat.ne_of_lt (h.keysNamed k hk)) (hflush _)
  obtain ⟨hfw, hrecv, hclean, hdata, hbar, hep⟩ := @recycle_same c cleanup
  refine ⟨?_, ?_, ?_, ?_, ?_, ?_, ?_, ?_, ?_, ?_, ?_, ?_, ?_, ?_, ?_, ?_⟩
  · rw [hall]
    exact List.pairwise_singleton _ _
  · rw [hall]
    intro d hd
    cases List.mem_singleton.mp hd
    exact Nat.lt_succ_self _
  · rw [recycle_keys]
    exact fun k hk => Nat.lt_succ_of_lt (h.keysNamed k hk)
  · rw [hall]
    intro d hd
    cases List.mem_singleton.mp hd
    rw [recycle_refs]
    change c.currentEpoch.active = c.refs c.nextId + owesNothing c.nextId
    rw [hactive, hnew]
    rfl
  · rw [recycle_keys]
    exact fun k hk hne => absurd (hkeys k hk) hne
  · rw [hfw]
    exact fun f hf => absurd hf (hflush f)
  · rw [hep, recycle_older]
    exact h.epochs
  · rw [recycle_older]
    exact h.closed
  · intro hf
    cases hf
  · intro _ hsize
    exact absurd rfl hsize
  · rw [recycle_keys]
    exact h.conflicts
  · rw [recycle_keys, hrecv]
    exact h.resolving
  · rw [recycle_keys, hrecv]
    exact h.held
  · obtain ⟨settled, hs⟩ := h.settles
    cases hb : c.currentEpoch.haveBarrierNumber with
    | true =>
        refine ⟨_, hs.finish ?_ recycle_acks hbar hclean hcleanup⟩
        rw [hsole, hall, openBarriers_singleton hb]
        rfl
    | false =>
        have hcl : cleanup = true := hhave.resolve_left (by simp [hb])
        obtain ⟨h₁, h₂, h₃⟩ := hs
        refine ⟨settled, ?_, ?_, ?_⟩
        · rw [hbar, h₁, hsole, hall, openBarriers_singleton_open hb]
          rfl
        · rw [recycle_acks, ← h₂, hcl]
          simp
        · rw [hclean]
          exact h₃
  · intro hc
    rw [hdata]
    rw [hclean] at hc
    have hnotcl : cleanup ≠ true := fun hcl => by
      rw [hcleanup hcl] at hc
      cases hc
    have := h.data hc
    rw [if_pos (hhave.resolve_right hnotcl)] at this
    rw [this]
    rfl
  · rw [hall, recycle_keys, recycle_acks]
    intro a ha
    refine ⟨fun k hk _ => hkeys k hk, fun d hd => ?_⟩
    cases List.mem_singleton.mp hd
    change a.epoch < c.nextId
    rcases List.mem_append.mp ha with ha | ha
    · exact Nat.lt_trans ((h.acked a ha).2 _ (currentEpoch_mem c)) (h.named _ (currentEpoch_mem c))
    · cases cleanup with
      | true => cases ha
      | false =>
          cases List.mem_singleton.mp ha
          exact h.named _ (currentEpoch_mem c)

/-! ## Updates that keep names, sizes and barriers -/

/-- The parts of an epoch that an update of its counter or its other flags leaves alone. -/
structure SameEpoch (e d : DrbdEpoch) : Prop where
  id : d.id = e.id
  barrierNr : d.barrierNr = e.barrierNr
  epochSize : d.epochSize = e.epochSize
  haveBarrierNumber : d.haveBarrierNumber = e.haveBarrierNumber

theorem SameEpoch.refl (e : DrbdEpoch) : SameEpoch e e := ⟨rfl, rfl, rfl, rfl⟩

theorem SameEpoch.modifyId {f : DrbdEpoch → DrbdEpoch} (hf : ∀ e, SameEpoch e (f e)) (e : DrbdEpoch) :
    SameEpoch e (modifyId id f e) := by
  unfold PeerEpoch.modifyId
  split
  · exact hf e
  · exact SameEpoch.refl e

theorem openBarriers_map {l : List DrbdEpoch} {g : DrbdEpoch → DrbdEpoch} (hg : ∀ e, SameEpoch e (g e)) :
    openBarriers (l.map g) = openBarriers l := by
  induction l with
  | nil => rfl
  | cons e l ih =>
      unfold openBarriers at ih ⊢
      rw [List.map_cons, List.filter_cons, List.filter_cons, (hg e).haveBarrierNumber]
      split
      · rw [List.map_cons, List.map_cons, ih, (hg e).barrierNr, (hg e).epochSize]
      · exact ih

/-- Epochs change one by one, keeping what matters; the references change with the counters. -/
theorem Basic.update {c' : Connection} {owed' : Nat → Nat} {g : DrbdEpoch → DrbdEpoch} (h : Basic c owed)
    (hg : ∀ e, SameEpoch e (g e)) (holder : c'.older = c.older.map g) (hcur : c'.currentEpoch = g c.currentEpoch)
    (hkeys : c'.keys = c.keys) (hflush : ∀ f ∈ c'.flushWork, ∃ e ∈ c.all, e.id = f)
    (hcount : ∀ e ∈ c.all, (g e).active = c'.refs e.id + owed' e.id)
    (hsame : c'.nextId = c.nextId ∧ c'.receiver = c.receiver ∧ c'.acks = c.acks ∧ c'.barriers = c.barriers ∧
      c'.dataCount = c.dataCount ∧ c'.epochs = c.epochs)
    (hclean : c.cleanedUp = true → c'.cleanedUp = true) : Basic c' owed' := by
  obtain ⟨hnext, hrecv, hacks, hbar, hdata, hep⟩ := hsame
  have hall : c'.all = c.all.map g := by simp [Connection.all, holder, hcur]
  have hmem : ∀ {P : Nat → Prop}, (∀ e ∈ c.all, P e.id) → ∀ d ∈ c'.all, P d.id := by
    intro P hP d hd
    rw [hall] at hd
    obtain ⟨e, he, rfl⟩ := List.mem_map.mp hd
    rw [(hg e).id]
    exact hP e he
  have hexists : ∀ {id}, (∃ e ∈ c.all, e.id = id) → ∃ d ∈ c'.all, d.id = id := by
    intro id he
    obtain ⟨e, he, rfl⟩ := he
    exact ⟨g e, by rw [hall]; exact List.mem_map_of_mem he, (hg e).id⟩
  have hclean' : c'.cleanedUp = false → c.cleanedUp = false := by
    intro hc
    cases hb : c.cleanedUp with
    | false => rfl
    | true =>
        rw [hclean hb] at hc
        cases hc
  refine ⟨?_, ?_, ?_, ?_, ?_, ?_, ?_, ?_, ?_, ?_, ?_, ?_, ?_, ?_, ?_, ?_⟩
  · rw [hall]
    refine List.pairwise_map.mpr (h.sorted.imp fun {a b} hab => ?_)
    rw [(hg a).id, (hg b).id]
    exact hab
  · rw [hnext]
    exact hmem (P := (· < c.nextId)) h.named
  · rw [hkeys, hnext]
    exact h.keysNamed
  · intro d hd
    rw [hall] at hd
    obtain ⟨e, he, rfl⟩ := List.mem_map.mp hd
    rw [(hg e).id]
    exact hcount e he
  · rw [hkeys]
    exact fun k hk hne => hexists (h.keyLive k hk hne)
  · exact fun f hf => hexists (hflush f hf)
  · rw [hep, holder, List.length_map]
    exact h.epochs
  · rw [holder]
    intro d hd
    obtain ⟨e, he, rfl⟩ := List.mem_map.mp hd
    rw [(hg e).haveBarrierNumber, (hg e).epochSize]
    exact h.closed e he
  · rw [hcur, hrecv, (hg _).haveBarrierNumber, (hg _).epochSize]
    exact h.busy
  · rw [hcur, hrecv, (hg _).haveBarrierNumber, (hg _).epochSize]
    exact h.closing
  · rw [hkeys]
    exact h.conflicts
  · rw [hkeys, hrecv]
    exact h.resolving
  · rw [hkeys, hrecv]
    exact h.held
  · obtain ⟨settled, h₁, h₂, h₃⟩ := h.settles
    refine ⟨settled, ?_, by rw [hacks]; exact h₂, fun hc => h₃ (hclean' hc)⟩
    rw [hbar, hall, openBarriers_map hg]
    exact h₁
  · intro hc
    rw [hdata, hcur, (hg _).haveBarrierNumber, (hg _).epochSize]
    exact h.data (hclean' hc)
  · rw [hacks, hkeys]
    exact fun a ha => ⟨(h.acked a ha).1, hmem (P := (a.epoch < ·)) (h.acked a ha).2⟩

theorem Basic.queueFlush (h : Basic c owesNothing) : Basic (c.queueFlush c.oldest.id) owesNothing := by
  refine h.update (g := modifyId c.oldest.id fun e => { e with active := e.active + 1 })
    (SameEpoch.modifyId fun e => ⟨rfl, rfl, rfl, rfl⟩) rfl rfl rfl ?_ ?_ ⟨rfl, rfl, rfl, rfl, rfl, rfl⟩ fun hc => hc
  · intro f hf
    rcases List.mem_append.mp hf with hf | hf
    · exact h.flushLive f hf
    · cases List.mem_singleton.mp hf
      exact ⟨c.oldest, oldest_mem c, rfl⟩
  · intro e he
    have hactive := h.counted e he
    have hrefs : (c.queueFlush c.oldest.id).refs e.id = c.refs e.id + if c.oldest.id = e.id then 1 else 0 := by
      simp only [Connection.refs, Connection.queueFlush, Connection.modify, Connection.keys, List.count_append,
        List.count_singleton, beq_iff_eq]
      omega
    by_cases hid : e.id = c.oldest.id
    · rw [modifyId_of_eq hid, hrefs, if_pos hid.symm]
      dsimp only
      omega
    · rw [modifyId_of_ne hid, hrefs, if_neg (Ne.symm hid)]
      exact hactive

/-- The loop of `drbd_may_finish_epoch` keeps the invariant. -/
theorem Basic.finish (h : Basic (c.afterEvent id ev cleanup) owesNothing) :
    Basic (drbdMayFinishEpoch c id ev cleanup) owesNothing := by
  have hP : Basic (drbdMayFinishEpoch c id ev cleanup) owesNothing ∧
      (cleanup = true → (drbdMayFinishEpoch c id ev cleanup).cleanedUp = true) := by
    refine drbdMayFinishEpoch_rule (P := fun c => Basic c owesNothing ∧ (cleanup = true → c.cleanedUp = true))
      ?_ ?_ ?_ ⟨h, fun hc => by simp [Connection.afterEvent, hc]⟩
    · intro c e rest hc hold hv
      refine ⟨hc.1.destroyOldest hold hv hc.2, ?_⟩
      rw [destroyOldest_same.2.2.2.1]
      exact hc.2
    · exact fun c hc _ => ⟨hc.1.queueFlush, hc.2⟩
    · intro c hc hold hv
      refine ⟨hc.1.recycle hold hv hc.2, ?_⟩
      rw [recycle_same.2.2.1]
      exact hc.2
  exact hP.1

theorem Basic.afterDone (h : Basic c owesNothing) : Basic (c.afterEvent id .barrierDone cleanup) owesNothing := by
  refine h.update (g := modifyId id (applyEvent c.writeOrdering (id = c.currentEpoch.id) .barrierDone))
    (SameEpoch.modifyId fun e => ⟨rfl, rfl, rfl, rfl⟩) rfl rfl rfl h.flushLive ?_
    ⟨rfl, rfl, rfl, rfl, rfl, rfl⟩ fun hc => by simp [Connection.afterEvent, hc]
  intro e he
  have hactive : (modifyId id (applyEvent c.writeOrdering (decide (id = c.currentEpoch.id)) .barrierDone) e).active =
      e.active := by
    unfold modifyId
    split <;> rfl
  rw [hactive]
  exact h.counted e he

theorem Basic.barrierDone (h : Basic c owesNothing) :
    Basic (drbdMayFinishEpoch c id .barrierDone cleanup) owesNothing :=
  h.afterDone.finish

theorem Basic.afterPut (h : Basic c (owesOne id)) : Basic (c.afterEvent id .put cleanup) owesNothing := by
  refine h.update (g := modifyId id (applyEvent c.writeOrdering (id = c.currentEpoch.id) .put))
    (SameEpoch.modifyId fun e => ⟨rfl, rfl, rfl, rfl⟩) rfl rfl rfl h.flushLive ?_
    ⟨rfl, rfl, rfl, rfl, rfl, rfl⟩ fun hc => by simp [Connection.afterEvent, hc]
  intro e he
  have hactive := h.counted e he
  have hrefs : (c.afterEvent id .put cleanup).refs e.id = c.refs e.id := rfl
  by_cases hid : e.id = id
  · rw [modifyId_of_eq hid, hrefs]
    simp only [owesOne, hid, ↓reduceIte] at hactive
    simp only [applyEvent, owesNothing]
    rw [hactive, hid]
    omega
  · rw [modifyId_of_ne hid, hrefs]
    simpa [owesOne, hid, owesNothing] using hactive

theorem Basic.put (h : Basic c (owesOne id)) : Basic (drbdMayFinishEpoch c id .put cleanup) owesNothing :=
  h.afterPut.finish

end Drbd.PeerEpoch
