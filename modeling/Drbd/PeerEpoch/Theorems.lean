import Drbd.PeerEpoch.Lemmas.Alive

/-!
# The epochs of the receiver

In every run in which no peer write is refused, the counters are right, the acks come in the order of the
barriers and with their sizes, and, as long as the method is kept, after the data is on stable storage.
-/

namespace Drbd.PeerEpoch

open Drbd.Lib

/-- Peer writes of an epoch that were received and are not yet finished. -/
def Connection.unfinishedWrites (c : Connection) (id : Nat) : Nat :=
  c.writes.countP fun w => w.epoch = id && w.state ≠ .finished

/-- The numbers and sizes of the acks sent. -/
def Connection.acked (c : Connection) : List (Nat × Nat) :=
  c.acks.map fun a => (a.barrierNr, a.setSize)

/-- Nothing is left to do but to wait for packets. -/
def Connection.Quiet (c : Connection) : Prop :=
  c.receiver = .idle ∧ (∀ w ∈ c.writes, w.state = .finished) ∧ c.flushWork = []

structure EpochsSound (c : Connection) : Prop where
  active : ∀ e ∈ c.all, e.active = c.unfinishedWrites e.id + c.flushWork.count e.id
  epochs : c.epochs = c.all.length
  inOrder : c.acked.Sublist c.barriers
  finished : ∀ a ∈ c.acks, ∀ w ∈ c.writes, w.epoch = a.epoch → w.state = .finished
  noneSkipped : c.cleanedUp = false → c.acked <+: c.barriers
  ordered : c.bumped = false → c.writeOrdering = .bdevFlush ∨ c.writeOrdering = .bioBarrier →
    ∀ a ∈ c.acks, ∀ w ∈ c.writes, w.epoch = a.epoch → w.stable = true
  complete : c.cleanedUp = false → c.bumped = false → c.Quiet → c.acked = c.barriers

/-- The three invariants, as far as they hold. -/
structure Invariant (c : Connection) : Prop where
  basic : Basic c owesNothing
  ordered : c.bumped = false → Ordered c
  alive : c.bumped = false → c.cleanedUp = false → Alive c

/-- When all is quiet, no epoch waits for its ack. -/
theorem Alive.older_nil {c : Connection} (h : Alive c) (hb : Basic c owesNothing) (hq : c.Quiet) : c.older = [] := by
  obtain ⟨-, hw, hf⟩ := hq
  cases hold : c.older with
  | nil => rfl
  | cons e rest =>
      have he : e ∈ c.older := by simp [hold]
      have hall : e ∈ c.all := List.mem_append_left _ he
      have hrefs : c.refs e.id = 0 := by
        have hcount : c.keys.countP (unfinished e.id) = 0 := by
          refine List.countP_eq_zero.mpr fun k hk => ?_
          obtain ⟨w, hmem, rfl⟩ := List.mem_map.mp hk
          simp [unfinished, hw w hmem]
        simp [Connection.refs, hcount, hf]
      have hactive : e.active = 0 := by
        have := hb.counted e hall
        simp only [owesNothing] at this
        omega
      obtain ⟨hhave, hsize⟩ := hb.closed e he
      have hlive := h.settled
      rw [oldest_of_cons hold] at hlive
      unfold verdict at hlive
      rw [if_pos (by simp [hsize, hactive, hhave])] at hlive
      split at hlive
      · cases hlive
      · rename_i hwhy
        simp only [Bool.or_false, Bool.or_eq_true, not_or, Bool.not_eq_true] at hwhy
        obtain ⟨⟨hnd, hnone⟩, -⟩ := hwhy
        cases hm : c.writeOrdering with
        | none => simp [hm] at hnone
        | drainIo =>
            rw [h.waits.oldDone (Or.inl hm) e he] at hnd
            cases hnd
        | bdevFlush =>
            rw [h.waits.oldDone (Or.inr hm) e he] at hnd
            cases hnd
        | bioBarrier =>
            have hi : e.barrierInNextEpochIssued = true := by
              cases hi : e.barrierInNextEpochIssued with
              | true => rfl
              | false => simp [hi, hm] at hlive
            obtain ⟨w, hwm, -, hws, -⟩ := h.waits.pending hm e hall hi hnd
            exact absurd (hw w hwm) hws

theorem Invariant.sound {c : Connection} (h : Invariant c) : EpochsSound c := by
  obtain ⟨settled, hbar, hack, hallAcked⟩ := h.basic.settles
  have hack' : c.acked = (settled.filter Prod.snd).map Prod.fst := hack
  have hkeep : c.cleanedUp = false → settled.filter Prod.snd = settled :=
    fun hc => List.filter_eq_self.mpr (hallAcked hc)
  refine ⟨?_, ?_, ?_, ?_, ?_, ?_, ?_⟩
  · intro e he
    have hcount : c.keys.countP (unfinished e.id) = c.unfinishedWrites e.id := by
      rw [Connection.keys, List.countP_map]
      rfl
    rw [← hcount]
    exact h.basic.counted e he
  · simpa [Connection.all] using h.basic.epochs
  · rw [hack', hbar]
    exact (List.filter_sublist.map Prod.fst).trans (List.sublist_append_left _ _)
  · intro a ha w hw hwe
    exact (h.basic.acked a ha).1 (w.epoch, w.state) (List.mem_map_of_mem hw) hwe
  · intro hc
    rw [hack', hbar, hkeep hc]
    exact List.prefix_append _ _
  · intro hb hm
    refine (h.ordered hb).ackedStable ?_
    rcases hm with hm | hm
    · simp [hm, WriteOrdering.rank]
    · simp [hm, WriteOrdering.rank]
  · intro hc hb hq
    have hnil := (h.alive hb hc).older_nil h.basic hq
    have hopen := h.basic.open_of_idle hq.1
    rw [hack', hbar, hkeep hc, all_of_nil hnil, openBarriers_singleton_open hopen, List.append_nil]

theorem issueFlush_cleanedUp {c : Connection} {failed : Option WriteOrdering} :
    (c.issueFlush failed).cleanedUp = c.cleanedUp := by
  unfold Connection.issueFlush
  split
  · rfl
  · split <;> rfl

/-- A cleanup is never forgotten. -/
theorem step_cleanedUp {c c' : Connection} {ev : Event} (hstep : step c ev = some c') (h : c'.cleanedUp = false) :
    c.cleanedUp = false := by
  have hflush : ∀ {c : Connection} {id failed}, (drbdFlushAfterEpoch c id failed).cleanedUp = false →
      c.cleanedUp = false :=
    fun hf => issueFlush_cleanedUp.symm.trans (cleanedUp_of_finish hf).1
  cases ev with
  | data =>
      simp only [step, receiveData] at hstep
      split at hstep
      · cases hstep
        split at h
        · split at h <;> exact h
        · exact h
      · cases hstep
  | dataNoDisk =>
      simp only [step] at hstep
      split at hstep
      · cases hstep
        exact h
      · cases hstep
  | submit | supersede =>
      obtain ⟨⟨w, d⟩, hres, rfl⟩ := Option.map_eq_some_iff.mp hstep
      obtain ⟨-, -, -, rfl⟩ := resolve_some hres
      exact h
  | interrupted =>
      obtain ⟨⟨w, d⟩, hdrop, rfl⟩ := Option.map_eq_some_iff.mp hstep
      cases (cleanedUp_of_finish h).2
  | sendSuperseded i | reissue i =>
      obtain ⟨⟨w, d⟩, hmove, rfl⟩ := Option.map_eq_some_iff.mp hstep
      obtain ⟨-, -, rfl⟩ := moveWrite_some hmove
      exact h
  | reissueFailed i =>
      obtain ⟨⟨w, d⟩, hmove, rfl⟩ := Option.map_eq_some_iff.mp hstep
      cases (cleanedUp_of_finish h).2
  | endio i failed =>
      simp only [step, endio] at hstep
      split at hstep
      · cases hstep
      · rename_i w d hmove
        obtain ⟨-, -, rfl⟩ := moveWrite_some hmove
        split at hstep
        · cases hstep
          split at h <;> exact h
        · split at hstep <;> cases hstep <;> exact h
  | endBlock i cancel =>
      simp only [step, eEndBlock] at hstep
      split at hstep
      · cases hstep
      · cases hstep
        have h' := (cleanedUp_of_finish h).1
        dsimp only at h'
        split at h'
        · exact (cleanedUp_of_finish h').1
        · exact h'
  | flush failed cleanup =>
      simp only [step, wFlush] at hstep
      split at hstep
      · cases hstep
      · cases hstep
        have h' := (cleanedUp_of_finish h).1
        dsimp only at h'
        split at h'
        · exact h'
        · have := hflush h'
          exact this
  | barrier nr =>
      simp only [step, receiveBarrier] at hstep
      split at hstep
      · cases hstep
        split at h
        · have := (cleanedUp_of_finish h).1
          exact this
        · split at h
          · have := (cleanedUp_of_finish h).1
            exact this
          · have := (cleanedUp_of_finish h).1
            exact this
      · cases hstep
  | drained failed =>
      simp only [step, barrierDrained] at hstep
      split at hstep
      · cases hstep
        split at h
        · have := hflush h
          exact this
        · have := hflush h
          exact this
      · cases hstep
  | allocated =>
      simp only [step, barrierAllocated] at hstep
      split at hstep
      · cases hstep
        split at h <;> exact h
      · cases hstep
  | bump wo allowed =>
      cases hstep
      exact h

theorem step_invariant {c c' : Connection} {ev : Event} (h : Invariant c) (hord : Orderly c ev)
    (hstep : step c ev = some c') : Invariant c' := by
  refine ⟨step_basic h.basic hord hstep, fun hb => ?_, fun hb hc => ?_⟩
  · exact step_ordered (h.ordered (step_bumped hstep hb)) h.basic hord hstep hb
  · have hb' := step_bumped hstep hb
    exact step_alive (h.alive hb' (step_cleanedUp hstep hc)) (h.ordered hb') h.basic hord hstep hb hc

/-- The epochs of the receiver, in every run without refused writes. -/
theorem epochs_sound (wo : WriteOrdering) (es : List Event) (c : Connection)
    (hord : Meets step Orderly (connected wo) es) (hrun : run step (connected wo) es = some c) : EpochsSound c := by
  have hinit : Invariant (connected wo) :=
    ⟨basic_connected wo, fun _ => ordered_connected wo, fun _ _ => alive_connected wo⟩
  have hinv : Invariant c := run_invariant step_invariant hinit hord hrun
  exact hinv.sound

/-- Two epochs, the second started with a barrier, completed in another order than they came in. -/
def twoEpochs : List Event :=
  [.data, .submit, .data, .submit, .barrier 1, .allocated, .data, .submit, .endio 2 none, .endBlock 2 false,
    .endio 1 none, .endio 0 none, .endBlock 0 false, .endBlock 1 false, .barrier 2]

theorem epochs_sound_two : ∃ c, run step (connected .bioBarrier) twoEpochs = some c ∧
    c.acked = [(1, 2), (2, 1)] ∧ EpochsSound c := by
  obtain ⟨c, hrun⟩ : ∃ c, run step (connected .bioBarrier) twoEpochs = some c :=
    Option.isSome_iff_exists.mp (by decide)
  have hacked : (run step (connected .bioBarrier) twoEpochs).map Connection.acked = some [(1, 2), (2, 1)] := by
    decide
  rw [hrun] at hacked
  exact ⟨c, hrun, Option.some.inj hacked, epochs_sound .bioBarrier twoEpochs c (by decide) hrun⟩

/-- A cleanup finishes an epoch without an ack; a queued flush is counted as active; and a refused write is counted
as active for good, so that its epoch is never acked. -/
theorem active_and_acks_deviate :
    (run step (connected .none) [.data, .submit, .barrier 5, .allocated, .endio 0 none, .endBlock 0 true]).map
        (fun c => (c.epochs, c.acked, c.barriers)) = some (1, [], [(5, 1)]) ∧
      (run step (connected .bioBarrier)
          [.data, .submit, .dataNoDisk, .barrier 5, .allocated, .endio 0 none, .endBlock 0 false]).map
        (fun c => (c.unfinishedWrites c.oldest.id, c.oldest.active)) = some (0, 1) ∧
      (run step (connected .none) [.data, .supersede, .sendSuperseded 0, .barrier 5, .allocated]).map
        (fun c => (c.unfinishedWrites c.oldest.id, c.oldest.active, c.acked)) = some (0, 1, []) := by
  decide

end Drbd.PeerEpoch
