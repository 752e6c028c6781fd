import Drbd.Epoch.Lemmas.Log

/-!
# Sender, transfer log and peer agree

The invariant of a connection while every epoch of the transfer log holds either replicated writes only or
none before the first that is not: one lemma for each thing a step does to the log, then one for each event.
-/

namespace Drbd.Epoch

open Drbd.Lib

variable {c c' : Connection} {r : TlReq} {log pre post : List TlReq} {tle tle' maxEpochSize nr size : Nat}
  {send send' : Send} {past rest : List (Nat × Nat)} {delivered : List Packet}

/-! ## The transfer log -/

structure LogOk (log : List TlReq) (tle : Nat) (send : Send) (past : List (Nat × Nat)) : Prop where
  sorted : log.Pairwise Follows
  sane : ∀ r ∈ log, r.Sane
  current : ∀ r ∈ log, r.epoch ≤ tle
  ahead : send.seenAnyWriteYet = true → ∀ r ∈ log, r.isQueued = true → send.currentEpochNr ≤ r.epoch
  acked : ∀ r ∈ log, r.kind = .data → r.status = .done → ∃ p ∈ past, p.1 = r.epoch

theorem LogOk.newEpoch (h : LogOk log tle send past) (hle : tle ≤ tle') : LogOk log tle' send past :=
  ⟨h.sorted, h.sane, fun r hr => Nat.le_trans (h.current r hr) hle, h.ahead, h.acked⟩

theorem LogOk.sublist {log'} (h : LogOk log tle send past) (hsub : log'.Sublist log) : LogOk log' tle send past :=
  ⟨h.sorted.sublist hsub, fun r hr => h.sane r (hsub.subset hr), fun r hr => h.current r (hsub.subset hr),
    fun hs r hr => h.ahead hs r (hsub.subset hr), fun r hr => h.acked r (hsub.subset hr)⟩

/-- A request is appended with the current epoch; a write that is not replicated may not follow a replicated one. -/
theorem LogOk.append (h : LogOk log tle send past) (hle : send.seenAnyWriteYet = true → send.currentEpochNr ≤ tle)
    (hepoch : r.epoch = tle) (hstatus : r.status = .queued) (hsane : r.Sane)
    (hwhole : r.write = true → r.kind ≠ .data → ∀ s ∈ log, s.epoch = tle → s.kind ≠ .data) :
    LogOk (log ++ [r]) tle send past := by
  have hlast : ∀ s ∈ log, Follows s r := by
    intro s hs
    refine ⟨hepoch ▸ h.current s hs, fun _ => hstatus, fun hdata hw he => ?_⟩
    by_contra hkind
    exact hwhole hw hkind s hs (he.symm.trans hepoch) hdata
  refine ⟨?_, ?_, ?_, ?_, ?_⟩
  · refine List.pairwise_append.mpr ⟨h.sorted, List.pairwise_singleton _ _, fun s hs t ht => ?_⟩
    cases List.mem_singleton.mp ht
    exact hlast s hs
  · intro s hs
    rcases List.mem_append.mp hs with hs | hs
    · exact h.sane s hs
    · cases List.mem_singleton.mp hs
      exact hsane
  · intro s hs
    rcases List.mem_append.mp hs with hs | hs
    · exact h.current s hs
    · cases List.mem_singleton.mp hs
      exact Nat.le_of_eq hepoch
  · intro hseen s hs hq
    rcases List.mem_append.mp hs with hs | hs
    · exact h.ahead hseen s hs hq
    · cases List.mem_singleton.mp hs
      exact hepoch ▸ hle hseen
  · intro s hs hdata hdone
    rcases List.mem_append.mp hs with hs | hs
    · exact h.acked s hs hdata hdone
    · cases List.mem_singleton.mp hs
      rw [hstatus] at hdone
      cases hdone

theorem handedOver_status (r : TlReq) : r.handedOver.status ≠ .queued := by
  unfold TlReq.handedOver
  split <;> simp

theorem handedOver_sane (h : r.Sane) (hq : r.isQueued = true) : r.handedOver.Sane := by
  refine ⟨h.data, h.read, fun hs => ?_⟩
  obtain ⟨epoch, write, kind, status⟩ := r
  cases kind <;> simp_all [TlReq.handedOver, TlReq.isQueued, TlReq.netMask]

/-- The oldest queued request is handed over. -/
theorem LogOk.handOver (h : LogOk (pre ++ r :: post) tle send past) (hpre : ∀ s ∈ pre, s.isQueued = false)
    (hq : r.isQueued = true) (hnr : send'.seenAnyWriteYet = true → send'.currentEpochNr = r.epoch) :
    LogOk (pre ++ r.handedOver :: post) tle send' past := by
  obtain ⟨hsPre, hsRest, hcross⟩ := List.pairwise_append.mp h.sorted
  obtain ⟨hfirst, hsPost⟩ := List.pairwise_cons.mp hsRest
  have hnq : r.handedOver.isQueued = false := by
    simp [TlReq.isQueued, handedOver_status]
  have hmem : ∀ s ∈ pre ++ r.handedOver :: post, s = r.handedOver ∨ s ∈ pre ++ r :: post := by
    intro s hs
    simp only [List.mem_append, List.mem_cons] at hs ⊢
    rcases hs with hs | hs | hs
    · exact Or.inr (Or.inl hs)
    · exact Or.inl hs
    · exact Or.inr (Or.inr (Or.inr hs))
  have hr : r ∈ pre ++ r :: post := by simp
  refine ⟨?_, ?_, ?_, ?_, ?_⟩
  · refine List.pairwise_append.mpr ⟨hsPre, List.pairwise_cons.mpr ⟨fun s hs => ?_, hsPost⟩, fun s hs t ht => ?_⟩
    · refine ⟨(hfirst s hs).epoch, fun hq' => ?_, (hfirst s hs).whole⟩
      rw [hnq] at hq'
      cases hq'
    · rcases List.mem_cons.mp ht with rfl | ht
      · have hf := hcross s hs r List.mem_cons_self
        refine ⟨hf.epoch, fun hq' => ?_, hf.whole⟩
        rw [hpre s hs] at hq'
        cases hq'
      · exact hcross s hs t (List.mem_cons_of_mem r ht)
  · intro s hs
    rcases hmem s hs with rfl | hs
    · exact handedOver_sane (h.sane r hr) hq
    · exact h.sane s hs
  · intro s hs
    rcases hmem s hs with rfl | hs
    · exact h.current r hr
    · exact h.current s hs
  · intro hseen s hs hqs
    rw [hnr hseen]
    simp only [List.mem_append, List.mem_cons] at hs
    rcases hs with hs | rfl | hs
    · rw [hpre s hs] at hqs
      cases hqs
    · rw [hnq] at hqs
      cases hqs
    · exact (hfirst s hs).epoch
  · intro s hs hdata hdone
    rcases hmem s hs with rfl | hs
    · have hkind : r.kind = .data := hdata
      simp [TlReq.handedOver, hkind] at hdone
    · exact h.acked s hs hdata hdone

theorem sentEpochs_handOver (h : LogOk (pre ++ r :: post) tle send past) (hq : r.isQueued = true) :
    sentEpochs (pre ++ r.handedOver :: post) =
      sentEpochs (pre ++ r :: post) ++ if r.kind = .data then [r.epoch] else [] := by
  obtain ⟨-, hsRest, -⟩ := List.pairwise_append.mp h.sorted
  obtain ⟨hfirst, -⟩ := List.pairwise_cons.mp hsRest
  have hstatus : r.status = .queued := by
    simp only [TlReq.isQueued, Bool.and_eq_true, decide_eq_true_eq] at hq
    exact hq.2
  have hr : r.awaitsAck = false := by simp [TlReq.awaitsAck, hstatus]
  have hpost : sentEpochs post = [] := by
    refine sentEpochs_eq_nil fun s hs => ?_
    simp [TlReq.awaitsAck, (hfirst s hs).queued hq]
  rw [sentEpochs_append, sentEpochs_append, sentEpochs_cons_other hr, hpost, List.append_nil]
  by_cases hdata : r.kind = .data
  · have hsent : r.handedOver.awaitsAck = true := by
      simp [TlReq.awaitsAck, TlReq.handedOver, hdata]
    rw [sentEpochs_cons_sent hsent, hpost, if_pos hdata]
    rfl
  · have hsent : r.handedOver.awaitsAck = false := by
      simp [TlReq.awaitsAck, TlReq.handedOver, hdata]
    rw [sentEpochs_cons_other hsent, hpost, if_neg hdata]

/-- An epoch that is closed on the wire is acked. -/
theorem LogOk.ack (h : LogOk log tle send past) (hqueued : ∀ r ∈ log, r.isQueued = true → nr < r.epoch) :
    LogOk (log.map (ackEpoch nr)) tle send (past ++ [(nr, size)]) := by
  refine ⟨?_, ?_, ?_, ?_, ?_⟩
  · refine List.pairwise_map.mpr (h.sorted.imp_of_mem fun {r s} hr _ hf => ?_)
    exact ackEpoch_follows hf (hqueued r hr)
  · intro s hs
    obtain ⟨r, hr, rfl⟩ := List.mem_map.mp hs
    exact ackEpoch_sane (h.sane r hr)
  · intro s hs
    obtain ⟨r, hr, rfl⟩ := List.mem_map.mp hs
    simpa using h.current r hr
  · intro hseen s hs hq
    obtain ⟨r, hr, rfl⟩ := List.mem_map.mp hs
    simpa using h.ahead hseen r hr (ackEpoch_isQueued hq).1
  · intro s hs hdata hdone
    obtain ⟨r, hr, rfl⟩ := List.mem_map.mp hs
    rcases ackEpoch_status nr r with hst | ⟨he, -, -⟩
    · obtain ⟨p, hp, hpe⟩ := h.acked r hr (by simpa using hdata) (hst ▸ hdone)
      exact ⟨p, List.mem_append_left _ hp, by simpa using hpe⟩
    · exact ⟨(nr, size), by simp, by simpa using he.symm⟩

/-! ## The connection -/

/-- The invariant, with the packets delivered so far, the epochs acked and those closed since. -/
structure Agrees (c : Connection) (delivered : List Packet) (past rest : List (Nat × Nat)) : Prop where
  noError : c.protocolError = false
  sending : Sending c.wire c.send past rest (sentEpochs c.transferLog)
  wire_eq : c.wire = delivered ++ c.channel
  counted : peerCount (0, []) delivered = (c.epochSize, past ++ c.acks)
  logOk : LogOk c.transferLog c.currentTleNr c.send past
  behind : c.send.seenAnyWriteYet = true → c.send.currentEpochNr ≤ c.currentTleNr

def Agreeing (c : Connection) : Prop :=
  ∃ delivered past rest, Agrees c delivered past rest

theorem agreeing_connected (nr : Nat) : Agreeing (connected nr) := by
  refine ⟨[], [], [], ⟨rfl, ⟨rfl, rfl, ⟨?_, List.Pairwise.nil, ?_⟩, ?_⟩, rfl, rfl,
    ⟨List.Pairwise.nil, ?_, ?_, ?_, ?_⟩, ?_⟩⟩
  all_goals simp [connected]

/-! ### The submitter -/

theorem Agrees.startNewTlEpoch (h : Agrees c delivered past rest) : Agrees (startNewTlEpoch c) delivered past rest := by
  unfold Epoch.startNewTlEpoch
  split
  · exact h
  · exact ⟨h.noError, h.sending, h.wire_eq, h.counted, h.logOk.newEpoch (Nat.le_succ _),
      fun hseen => Nat.le_succ_of_le (h.behind hseen)⟩

/-- A request that waits for nothing from the peer yet is put on the transfer log. -/
theorem Agrees.addRequest (h : Agrees c delivered past rest) (writes : Nat) (hepoch : r.epoch = c.currentTleNr)
    (hstatus : r.status = .queued) (hsane : r.Sane)
    (hwhole : r.write = true → r.kind ≠ .data → ∀ s ∈ c.transferLog, s.epoch = c.currentTleNr → s.kind ≠ .data) :
    Agrees { c with currentTleWrites := writes, transferLog := c.transferLog ++ [r] } delivered past rest := by
  have hsent : sentEpochs (c.transferLog ++ [r]) = sentEpochs c.transferLog := by
    have hr : r.awaitsAck = false := by simp [TlReq.awaitsAck, hstatus]
    rw [sentEpochs_append, sentEpochs_cons_other hr, sentEpochs_nil, List.append_nil]
  refine ⟨h.noError, ?_, h.wire_eq, h.counted, h.logOk.append h.behind hepoch hstatus hsane hwhole, h.behind⟩
  rw [hsent]
  exact h.sending

theorem drbdProcessWriteRequest_ne_read (remote sendOos noblock marked : Bool) :
    drbdProcessWriteRequest remote sendOos noblock marked ≠ .read := by
  revert remote sendOos noblock marked
  decide

theorem Agrees.submitWrite {kind : Kind} (h : Agrees c delivered past rest) (hread : kind ≠ .read)
    (hwhole : kind ≠ .data → ∀ s ∈ c.transferLog, s.epoch = c.currentTleNr → s.kind ≠ .data) :
    Agrees (submitWrite maxEpochSize c kind) delivered past rest := by
  have hadd := h.addRequest (r := ⟨c.currentTleNr, true, kind, .queued⟩) (c.currentTleWrites + 1) rfl rfl
    ⟨fun _ => rfl, fun hk => absurd hk hread, fun hs => by cases hs⟩ (fun _ => hwhole)
  unfold Epoch.submitWrite
  dsimp only
  split
  · unfold queueForNetWrite
    split
    · exact hadd.startNewTlEpoch
    · exact hadd
  · exact hadd

theorem Agrees.submitRead {remote : Bool} (h : Agrees c delivered past rest) :
    Agrees (submitRead c remote) delivered past rest := by
  refine h.addRequest (r := ⟨c.currentTleNr, false, if remote then .read else .localOnly, .queued⟩)
    c.currentTleWrites rfl rfl ⟨fun hk => ?_, fun _ => rfl, fun hs => by cases hs⟩ (fun hw => by cases hw)
  cases remote <;> cases hk

/-! ### The worker -/

/-- Sending changes the sender's counters and appends packets. -/
def Sends (c c' : Connection) : Prop :=
  ∃ send ps, c' = { c with send := send, channel := c.channel ++ ps, wire := c.wire ++ ps }

theorem Sends.refl (c : Connection) : Sends c c := ⟨c.send, [], by simp⟩

theorem Sends.trans {c''} (h : Sends c c') (h' : Sends c' c'') : Sends c c'' := by
  obtain ⟨send, ps, rfl⟩ := h
  obtain ⟨send', ps', rfl⟩ := h'
  exact ⟨send', ps ++ ps', by simp⟩

theorem sends_maybeSendBarrier (c : Connection) (epoch : Nat) : Sends c (maybeSendBarrier c epoch) := by
  unfold maybeSendBarrier
  split
  · exact Sends.refl c
  · split
    · exact Sends.refl c
    · dsimp only
      split
      · exact ⟨{ c.send with currentEpochNr := epoch }, [], by simp⟩
      · exact ⟨_, [.barrier c.send.currentEpochNr], rfl⟩

theorem sends_reInitIfFirstWrite (c : Connection) (epoch : Nat) : Sends c (reInitIfFirstWrite c epoch) := by
  unfold reInitIfFirstWrite
  split
  · exact Sends.refl c
  · exact ⟨⟨true, epoch, 0⟩, [], by simp⟩

theorem sends_wSend (c : Connection) (r : TlReq) : Sends c (wSend c r) := by
  unfold wSend
  split
  · refine ((sends_reInitIfFirstWrite c r.epoch).trans (sends_maybeSendBarrier _ r.epoch)).trans ?_
    exact ⟨_, [.data r.epoch], rfl⟩
  · exact sends_maybeSendBarrier c r.epoch

theorem wSend_nr (c : Connection) (r : TlReq) (hseen : (wSend c r).send.seenAnyWriteYet = true) :
    (wSend c r).send.currentEpochNr = r.epoch := by
  unfold wSend at hseen ⊢
  split
  · exact maybeSendBarrier_nr reInitIfFirstWrite_seen
  · rename_i hkind
    split at hseen
    · contradiction
    · rw [maybeSendBarrier_seen] at hseen
      exact maybeSendBarrier_nr hseen

theorem wSend_sending {sent : List Nat} (h : Sending c.wire c.send past rest sent)
    (hle : c.send.seenAnyWriteYet = true → c.send.currentEpochNr ≤ r.epoch) :
    ∃ rest', Sending (wSend c r).wire (wSend c r).send past rest'
      (sent ++ if r.kind = .data then [r.epoch] else []) := by
  unfold wSend
  split
  · rename_i hdata
    have hle' := reInitIfFirstWrite_le hle
    obtain ⟨rest', h'⟩ := h.reInitIfFirstWrite.maybeSendBarrier fun _ => hle'
    refine ⟨rest', ?_⟩
    rw [if_pos hdata]
    exact h'.put_data (maybeSendBarrier_seen.trans reInitIfFirstWrite_seen)
      (maybeSendBarrier_nr reInitIfFirstWrite_seen)
  · rename_i hdata
    rw [if_neg hdata, List.append_nil]
    exact h.maybeSendBarrier hle

/-- The worker hands over the oldest queued request. -/
theorem workerStep_cases (h : workerStep c = some c') : ∃ pre r post, c.transferLog = pre ++ r :: post ∧
    (∀ s ∈ pre, s.isQueued = false) ∧ r.isQueued = true ∧
      c' = wSend { c with transferLog := pre ++ r.handedOver :: post } r := by
  unfold workerStep at h
  split at h
  · cases h
  · rename_i r hfind
    obtain ⟨hq, pre, post, hlog, hpre⟩ := List.find?_eq_some_iff_append.mp hfind
    have hpre' : ∀ s ∈ pre, s.isQueued = false := fun s hs => by simpa using hpre s hs
    refine ⟨pre, r, post, hlog, hpre', hq, ?_⟩
    have htake : c.transferLog.takeWhile (!·.isQueued) = pre := by
      rw [hlog, List.takeWhile_append_of_pos hpre]
      simp [hq]
    have hdrop : c.transferLog.dropWhile (!·.isQueued) = r :: post := by
      rw [hlog, List.dropWhile_append_of_pos hpre]
      simp [hq]
    rw [htake, hdrop] at h
    exact (Option.some.inj h).symm

theorem Agrees.workerStep (h : Agrees c delivered past rest) (hstep : workerStep c = some c') :
    ∃ rest', Agrees c' delivered past rest' := by
  obtain ⟨pre, r, post, hlog, hpre, hq, rfl⟩ := workerStep_cases hstep
  have hlogOk := h.logOk
  have hsending := h.sending
  rw [hlog] at hlogOk hsending
  have hr : r ∈ pre ++ r :: post := by simp
  obtain ⟨rest', hsend⟩ := wSend_sending (c := { c with transferLog := pre ++ r.handedOver :: post }) hsending
    (fun hseen => hlogOk.ahead hseen r hr hq)
  rw [← sentEpochs_handOver hlogOk hq] at hsend
  have hsends := sends_wSend { c with transferLog := pre ++ r.handedOver :: post } r
  have hnr := wSend_nr { c with transferLog := pre ++ r.handedOver :: post } r
  have hover := hlogOk.handOver hpre hq hnr
  have hcur := hlogOk.current r hr
  obtain ⟨send, ps, heq⟩ := hsends
  rw [heq] at hsend hnr hover ⊢
  refine ⟨rest', ⟨h.noError, hsend, by simp [h.wire_eq], h.counted, hover, fun hseen => ?_⟩⟩
  rw [hnr hseen]
  exact hcur

theorem Agrees.workerIdle (h : Agrees c delivered past rest) (hstep : workerIdle c = some c') :
    ∃ rest', Agrees c' delivered past rest' := by
  unfold Epoch.workerIdle at hstep
  split at hstep
  · cases hstep
  · rename_i hnone
    split at hstep
    · cases hstep
      exact ⟨rest, h⟩
    · rename_i hne
      cases hstep
      have hnq : ∀ r ∈ c.transferLog, r.isQueued = false := by simpa using hnone
      obtain ⟨rest', hsend⟩ := h.sending.maybeSendBarrier fun _ => Nat.le_succ c.send.currentEpochNr
      have hnr : c.send.seenAnyWriteYet = true →
          (maybeSendBarrier c (c.send.currentEpochNr + 1)).send.currentEpochNr = c.send.currentEpochNr + 1 :=
        maybeSendBarrier_nr
      have hseen' : (maybeSendBarrier c (c.send.currentEpochNr + 1)).send.seenAnyWriteYet = c.send.seenAnyWriteYet :=
        maybeSendBarrier_seen
      obtain ⟨send, ps, heq⟩ := sends_maybeSendBarrier c (c.send.currentEpochNr + 1)
      rw [heq] at hsend hnr hseen' ⊢
      refine ⟨rest', ⟨h.noError, hsend, by simp [h.wire_eq], h.counted, ?_, fun hseen => ?_⟩⟩
      · refine ⟨h.logOk.sorted, h.logOk.sane, h.logOk.current, fun _ r hr hq => ?_, h.logOk.acked⟩
        rw [hnq r hr] at hq
        cases hq
      · have hs : c.send.seenAnyWriteYet = true := hseen' ▸ hseen
        have h₁ := h.behind hs
        have h₂ := hnr hs
        dsimp only at h₂ ⊢
        omega

/-! ### The peer and its acks -/

theorem Agrees.peerStep (h : Agrees c delivered past rest) (hstep : peerStep c = some c') :
    ∃ delivered', Agrees c' delivered' past rest := by
  unfold Epoch.peerStep at hstep
  split at hstep
  · cases hstep
  · rename_i e ps hch
    cases hstep
    refine ⟨delivered ++ [.data e], ⟨h.noError, h.sending, by simp [h.wire_eq, hch], ?_, h.logOk, h.behind⟩⟩
    rw [peerCount_append, h.counted]
    rfl
  · rename_i e ps hch
    cases hstep
    refine ⟨delivered ++ [.barrier e], ⟨h.noError, h.sending, by simp [h.wire_eq, hch], ?_, h.logOk, h.behind⟩⟩
    rw [peerCount_append, h.counted]
    simp only [peerCount, List.foldl_cons, List.foldl_nil, peerCountStep]
    split
    · rfl
    · rw [List.append_assoc]

/-- The acks under way are for the oldest closed epochs that were not acked. -/
theorem Agrees.acks_prefix (h : Agrees c delivered past rest) : c.acks <+: rest := by
  have hall : (peerCount (0, []) c.wire).2 = past ++ rest := by
    rw [h.sending.wire_eq, peerCount_append, peerCount_frame _ h.sending.framed.pos, peerCount_replicate]
    rfl
  have hpre := peerCount_prefix (peerCount (0, []) delivered) c.channel
  rw [← peerCount_append, ← h.wire_eq, hall, h.counted] at hpre
  exact (List.prefix_append_right_inj past).mp hpre

/-- The epoch of the oldest ack is over on the sending side. -/
theorem Agrees.queued_after (h : Agrees c delivered past ((nr, size) :: rest)) (hr : r ∈ c.transferLog)
    (hq : r.isQueued = true) : nr < r.epoch := by
  have hbelow : nr < c.send.currentEpochNr := h.sending.framed.below (nr, size) (by simp)
  have hseen : c.send.seenAnyWriteYet = true := by
    cases hs : c.send.seenAnyWriteYet with
    | true => rfl
    | false =>
        have hempty := (h.sending.unseen hs).1
        simp at hempty
  exact Nat.lt_of_lt_of_le hbelow (h.logOk.ahead hseen r hr hq)

theorem Agrees.later (h : Agrees c delivered past ((nr, size) :: rest)) :
    ∀ e ∈ expand rest ++ List.replicate c.send.currentEpochWrites c.send.currentEpochNr, nr < e := by
  intro e he
  have hinc := (List.pairwise_append.mp h.sending.framed.increasing).2.1
  rcases List.mem_append.mp he with he | he
  · obtain ⟨p, hp, -, rfl⟩ := mem_expand.mp he
    exact (List.pairwise_cons.mp hinc).1 p hp
  · rw [(List.mem_replicate.mp he).2]
    exact h.sending.framed.below (nr, size) (by simp)

theorem Agrees.sentEpochs_eq (h : Agrees c delivered past ((nr, size) :: rest)) :
    sentEpochs c.transferLog = List.replicate size nr ++
      (expand rest ++ List.replicate c.send.currentEpochWrites c.send.currentEpochNr) := by
  have hsplit : expand ((nr, size) :: rest) = List.replicate size nr ++ expand rest := by
    simp [expand]
  rw [h.sending.sent_eq, hsplit, List.append_assoc]

/-- `tl_release` counts what the peer counted. -/
theorem Agrees.tlExpect_eq (h : Agrees c delivered past ((nr, size) :: rest)) :
    tlExpect c.transferLog = some (nr, size) := by
  have hpos : 0 < size := h.sending.framed.pos (nr, size) (by simp)
  obtain ⟨k, rfl⟩ : ∃ k, size = k + 1 := ⟨size - 1, by omega⟩
  refine Epoch.tlExpect_eq h.logOk.sorted h.logOk.sane (fun r hr => h.queued_after hr) ?_ h.sentEpochs_eq h.later
  intro r hr hdata hdone
  obtain ⟨p, hp, hpe⟩ := h.logOk.acked r hr hdata hdone
  have hcross := (List.pairwise_append.mp h.sending.framed.increasing).2.2
  exact hpe ▸ hcross p hp (nr, k + 1) List.mem_cons_self

theorem Agrees.barrierAck {acks : List (Nat × Nat)} (h : Agrees c delivered past rest)
    (hacks : c.acks = (nr, size) :: acks) :
    ∃ past' rest', Agrees (tlRelease { c with acks := acks } nr size) delivered past' rest' := by
  obtain ⟨tail, hrest⟩ := h.acks_prefix
  rw [hacks, List.cons_append] at hrest
  subst hrest
  have hlater := h.later
  refine ⟨past ++ [(nr, size)], acks ++ tail, ?_⟩
  have hrel : tlRelease { c with acks := acks } nr size =
      { c with acks := acks, transferLog := c.transferLog.map (ackEpoch nr) } := by
    unfold tlRelease
    rw [h.tlExpect_eq]
    simp only [ne_eq, not_true_eq_false, or_self, ↓reduceIte]
    rw [← release_walk h.logOk.sorted]
  have hsent : sentEpochs (c.transferLog.map (ackEpoch nr)) =
      expand (acks ++ tail) ++ List.replicate c.send.currentEpochWrites c.send.currentEpochNr := by
    rw [sentEpochs_map_ackEpoch h.logOk.sane, h.sentEpochs_eq, List.filter_append,
      List.filter_eq_nil_iff.mpr (by simp), List.nil_append, List.filter_eq_self.mpr]
    intro e he
    have := hlater e he
    simp only [ne_eq, decide_not, Bool.not_eq_eq_eq_not, Bool.not_true, decide_eq_false_iff_not]
    omega
  rw [hrel]
  refine ⟨h.noError, ⟨?_, hsent, ?_, ?_⟩, h.wire_eq, ?_, h.logOk.ack fun r hr => h.queued_after hr, h.behind⟩
  · rw [List.append_assoc]
    exact h.sending.wire_eq
  · rw [List.append_assoc]
    exact h.sending.framed
  · rw [List.append_assoc]
    exact h.sending.unseen
  · rw [List.append_assoc, List.singleton_append, ← hacks]
    exact h.counted

/-! ### Requests that leave -/

theorem Agrees.destroy {i : Nat} (h : Agrees c delivered past rest) (hr : c.transferLog[i]? = some r)
    (hleave : r.mayLeave = true) :
    Agrees { c with transferLog := c.transferLog.eraseIdx i } delivered past rest := by
  have hw : r.awaitsAck = false := by
    obtain ⟨epoch, write, kind, status⟩ := r
    cases kind <;> cases status <;> simp_all [TlReq.awaitsAck, TlReq.mayLeave, TlReq.isQueued, TlReq.netMask]
  have hsent : sentEpochs (c.transferLog.eraseIdx i) = sentEpochs c.transferLog := by
    obtain ⟨hi, rfl⟩ := List.getElem?_eq_some_iff.mp hr
    conv_rhs => rw [← List.take_append_drop i c.transferLog, List.drop_eq_getElem_cons hi]
    rw [List.eraseIdx_eq_take_drop_succ, sentEpochs_append, sentEpochs_append, sentEpochs_cons_other hw]
  refine ⟨h.noError, ?_, h.wire_eq, h.counted, h.logOk.sublist (List.eraseIdx_sublist _ _), h.behind⟩
  rw [hsent]
  exact h.sending

end Drbd.Epoch
