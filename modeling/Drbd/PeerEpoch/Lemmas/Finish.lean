import Drbd.PeerEpoch.Defs

/-!
# The loop that finishes epochs

Epochs leave the list only from its old end, so a property of the connection is kept by
`drbd_may_finish_epoch` if it is kept when the oldest epoch leaves, when the only one is recycled, and when a
flush is queued for the oldest.
-/

namespace Drbd.PeerEpoch

variable {c : Connection} {e : DrbdEpoch} {rest : List DrbdEpoch} {id i : Nat} {cleanup : Bool} {ev : EpochEvent}
  {f : DrbdEpoch → DrbdEpoch} {wo : WriteOrdering}

theorem oldest_of_nil (h : c.older = []) : c.oldest = c.currentEpoch := by
  simp [Connection.oldest, h]

theorem oldest_of_cons (h : c.older = e :: rest) : c.oldest = e := by
  simp [Connection.oldest, h]

theorem oldest_mem (c : Connection) : c.oldest ∈ c.all := by
  cases h : c.older with
  | nil => simp [oldest_of_nil h, Connection.all]
  | cons e rest => simp [oldest_of_cons h, Connection.all, h]

theorem currentEpoch_mem (c : Connection) : c.currentEpoch ∈ c.all := by
  simp [Connection.all]

/-- The rule for the loop. -/
theorem finishOldest_rule {P : Connection → Prop}
    (hdestroy : ∀ c e rest, P c → c.older = e :: rest → verdict c.writeOrdering cleanup e = .finish →
      P (c.destroyOldest cleanup e rest))
    (hflush : ∀ c, P c → verdict c.writeOrdering cleanup c.oldest = .scheduleFlush → P (c.queueFlush c.oldest.id))
    (hrecycle : ∀ c, P c → c.older = [] → verdict c.writeOrdering cleanup c.currentEpoch = .finish →
      P (c.recycle cleanup))
    {older : List DrbdEpoch} (hP : P c) (holder : c.older = older) : P (finishOldest cleanup older c) := by
  induction older generalizing c with
  | nil =>
      unfold finishOldest
      have hold := oldest_of_nil holder
      split
      · exact hP
      · rename_i hv
        have := hflush c hP (hold ▸ hv)
        rwa [hold] at this
      · rename_i hv
        exact hrecycle c hP holder hv
  | cons e rest ih =>
      unfold finishOldest
      have hold := oldest_of_cons holder
      split
      · exact hP
      · rename_i hv
        have := hflush c hP (hold ▸ hv)
        rwa [hold] at this
      · rename_i hv
        exact ih (hdestroy c e rest hP holder hv) rfl

/-- The connection after the event, before epochs are finished. -/
def Connection.afterEvent (c : Connection) (id : Nat) (ev : EpochEvent) (cleanup : Bool) : Connection :=
  { c.modify id (applyEvent c.writeOrdering (id = c.currentEpoch.id) ev) with cleanedUp := c.cleanedUp || cleanup }

theorem drbdMayFinishEpoch_eq (c : Connection) (id : Nat) (ev : EpochEvent) (cleanup : Bool) :
    drbdMayFinishEpoch c id ev cleanup =
      if (c.afterEvent id ev cleanup).oldest.id = id then
        finishOldest cleanup (c.afterEvent id ev cleanup).older (c.afterEvent id ev cleanup)
      else c.afterEvent id ev cleanup := rfl

theorem drbdMayFinishEpoch_rule {P : Connection → Prop}
    (hdestroy : ∀ c e rest, P c → c.older = e :: rest → verdict c.writeOrdering cleanup e = .finish →
      P (c.destroyOldest cleanup e rest))
    (hflush : ∀ c, P c → verdict c.writeOrdering cleanup c.oldest = .scheduleFlush → P (c.queueFlush c.oldest.id))
    (hrecycle : ∀ c, P c → c.older = [] → verdict c.writeOrdering cleanup c.currentEpoch = .finish →
      P (c.recycle cleanup))
    (hP : P (c.afterEvent id ev cleanup)) : P (drbdMayFinishEpoch c id ev cleanup) := by
  rw [drbdMayFinishEpoch_eq]
  split
  · exact finishOldest_rule hdestroy hflush hrecycle hP rfl
  · exact hP

/-! ## Verdicts -/

theorem verdict_finish (h : verdict wo cleanup e = .finish) : e.epochSize ≠ 0 ∧ e.active = 0 ∧
    (e.haveBarrierNumber = true ∨ cleanup = true) ∧
      (e.barrierInNextEpochDone = true ∨ wo = .none ∨ (e.epochSize = 1 ∧ e.containsABarrier = true) ∨
        cleanup = true) := by
  unfold verdict at h
  split at h
  · rename_i hready
    simp only [ne_eq, decide_not, Bool.and_eq_true, Bool.not_eq_eq_eq_not, Bool.not_true, decide_eq_false_iff_not,
      decide_eq_true_eq, Bool.or_eq_true] at hready
    refine ⟨hready.1.1, hready.1.2, hready.2, ?_⟩
    split at h
    · rename_i hdone
      simpa [or_assoc] using hdone
    · split at h <;> cases h
  · cases h

theorem verdict_scheduleFlush (h : verdict wo cleanup e = .scheduleFlush) : e.epochSize ≠ 0 ∧ e.active = 0 ∧
    e.haveBarrierNumber = true ∧ cleanup = false := by
  unfold verdict at h
  split at h
  · rename_i hready
    simp only [ne_eq, decide_not, Bool.and_eq_true, Bool.not_eq_eq_eq_not, Bool.not_true, decide_eq_false_iff_not,
      decide_eq_true_eq, Bool.or_eq_true] at hready
    split at h
    · cases h
    · rename_i hdone
      have hcleanup : cleanup = false := by
        cases cleanup
        · rfl
        · simp at hdone
      exact ⟨hready.1.1, hready.1.2, hready.2.resolve_right (by simp [hcleanup]), hcleanup⟩
  · cases h

theorem verdict_of_active (h : e.active ≠ 0) : verdict wo cleanup e = .live := by
  simp [verdict, h]

theorem verdict_of_empty (h : e.epochSize = 0) : verdict wo cleanup e = .live := by
  simp [verdict, h]

theorem verdict_of_open (h : e.haveBarrierNumber = false) : verdict wo false e = .live := by
  simp [verdict, h]

/-! ## Updates of one epoch -/

theorem modify_all (c : Connection) (id : Nat) (f : DrbdEpoch → DrbdEpoch) :
    (c.modify id f).all = c.all.map (modifyId id f) := by
  simp [Connection.modify, Connection.all]

theorem modifyId_of_ne (h : e.id ≠ id) : modifyId id f e = e := if_neg h

theorem modifyId_of_eq (h : e.id = id) : modifyId id f e = f e := if_pos h

theorem modifyId_id (hf : ∀ e, (f e).id = e.id) : (modifyId id f e).id = e.id := by
  unfold modifyId
  split
  · exact hf e
  · rfl

theorem applyEvent_id {isCurrent : Bool} : (applyEvent wo isCurrent ev e).id = e.id := by
  cases ev <;> rfl

theorem afterEvent_all (c : Connection) (id : Nat) (ev : EpochEvent) (cleanup : Bool) :
    (c.afterEvent id ev cleanup).all =
      c.all.map (modifyId id (applyEvent c.writeOrdering (id = c.currentEpoch.id) ev)) :=
  modify_all c id _

/-! ## The epoch before -/

theorem previousEpoch_map {l : List DrbdEpoch} {g : DrbdEpoch → DrbdEpoch} (hg : ∀ e, (g e).id = e.id) :
    previousEpoch (l.map g) id = previousEpoch l id := by
  induction l with
  | nil => rfl
  | cons e l ih =>
      cases l with
      | nil => rfl
      | cons e' l =>
          simp only [List.map_cons, previousEpoch, hg] at ih ⊢
          rw [ih]

/-- It depends on the names only. -/
theorem previousEpoch_congr {l l' : List DrbdEpoch} (h : l.map (·.id) = l'.map (·.id)) :
    previousEpoch l id = previousEpoch l' id := by
  have hfresh : ∀ l : List DrbdEpoch, previousEpoch ((l.map (·.id)).map DrbdEpoch.fresh) id = previousEpoch l id := by
    intro l
    rw [List.map_map]
    exact previousEpoch_map fun _ => rfl
  rw [← hfresh l, h, hfresh l']

theorem previousEpoch_tail {l : List DrbdEpoch} {prev : Nat} (h : previousEpoch (e :: l) id = some prev)
    (hne : prev ≠ e.id) : previousEpoch l id = some prev := by
  cases l with
  | nil => cases h
  | cons e' l =>
      rw [previousEpoch] at h
      split at h
      · cases h
        exact absurd rfl hne
      · exact h

theorem previousEpoch_append {l l' : List DrbdEpoch} {prev : Nat} (h : previousEpoch l id = some prev) :
    previousEpoch (l ++ l') id = some prev := by
  induction l with
  | nil => cases h
  | cons e l ih =>
      cases l with
      | nil => cases h
      | cons e' l =>
          rw [previousEpoch] at h
          rw [List.cons_append, List.cons_append, previousEpoch]
          split
          · rw [if_pos (by assumption)] at h
            exact h
          · rw [if_neg (by assumption)] at h
            exact ih h

/-- The epoch before another is in the list, further to the front. -/
theorem previousEpoch_split {l : List DrbdEpoch} {prev : Nat} (h : previousEpoch l id = some prev) :
    ∃ pre e e' post, l = pre ++ e :: e' :: post ∧ e.id = prev ∧ e'.id = id := by
  induction l with
  | nil => cases h
  | cons e l ih =>
      cases l with
      | nil => cases h
      | cons e' l =>
          rw [previousEpoch] at h
          split at h
          · rename_i he
            cases h
            exact ⟨[], e, e', l, rfl, rfl, he⟩
          · obtain ⟨pre, d, d', post, hl, hd, hd'⟩ := ih h
            exact ⟨e :: pre, d, d', post, by rw [hl]; rfl, hd, hd'⟩

theorem previousEpoch_last {older : List DrbdEpoch} {prev cur : DrbdEpoch} (hne : ∀ e ∈ older, e.id ≠ cur.id)
    (hprev : older.getLast? = some prev) : previousEpoch (older ++ [cur]) cur.id = some prev.id := by
  induction older with
  | nil => cases hprev
  | cons e older ih =>
      cases older with
      | nil =>
          cases hprev
          simp [previousEpoch]
      | cons e' older =>
          have hne' : ∀ d ∈ e' :: older, d.id ≠ cur.id := fun d hd => hne d (List.mem_cons_of_mem e hd)
          have hlast : (e' :: older).getLast? = some prev := by simpa using hprev
          have := ih hne' hlast
          rw [List.cons_append, List.cons_append, previousEpoch, if_neg (hne' e' List.mem_cons_self)]
          exact this

end Drbd.PeerEpoch
