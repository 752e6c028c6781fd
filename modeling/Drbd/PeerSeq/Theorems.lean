import Drbd.PeerSeq.Defs
import Mathlib.Order.Lattice
import Mathlib.Algebra.Order.Group.Nat

/-!
# Acks come before the data that was sent after them

No ack that is still under way has a number below `peer_seq`. A data packet is let through when its
predecessor's number was reached, so every ack before it has come; and data packets come in order.
-/

namespace Drbd.PeerSeq

open Lib

variable {resolveConflicts : Bool} {s s' : State} {e : Event} {m : Moment} {n : Nat} {rest : List Nat}

/-! ## The wrapping order -/

theorem not_seqGreater_self (a : Nat) : ¬ seqGreater a a := by
  unfold seqGreater SerialGt serialDiff
  omega

theorem not_seqGreater_seqMax (a b : Nat) : ¬ seqGreater a (seqMax a b) := by
  unfold seqMax
  split
  · exact not_seqGreater_self a
  · assumption

theorem not_seqGreater_updatePeerSeq (a b : Nat) : ¬ seqGreater a (updatePeerSeq resolveConflicts a b) := by
  unfold updatePeerSeq
  split
  · exact not_seqGreater_seqMax a b
  · exact not_seqGreater_self a

theorem not_seqGreater_receiveData {a b p : Nat} (h : receiveData resolveConflicts m a b = .process p) :
    ¬ seqGreater a p := by
  unfold receiveData waitForAndUpdatePeerSeq at h
  split at h
  · split at h
    · cases h
      exact not_seqGreater_self a
    · split at h
      · cases h
        exact not_seqGreater_seqMax a b
      · split at h
        · cases h
        · split at h
          · cases h
            exact not_seqGreater_self a
          · split at h <;> cases h
  · cases h
    exact not_seqGreater_updatePeerSeq a b

theorem seqGreater_wire {x y : Nat} (hx : x < y + 2 ^ 31) (hy : y < x + 2 ^ 31) :
    seqGreater (wire x) (wire y) ↔ y < x := by
  have h := @serialGt_iff 0 x y hx hy
  rwa [Nat.zero_add, Nat.zero_add] at h

theorem seqMax_wire {x y : Nat} (hx : x < y + 2 ^ 31) (hy : y < x + 2 ^ 31) :
    seqMax (wire x) (wire y) = wire (max x y) := by
  unfold seqMax
  rcases Nat.lt_or_ge y x with h | h
  · rw [if_pos ((seqGreater_wire hx hy).2 h), Nat.max_eq_left (Nat.le_of_lt h)]
  · rw [if_neg (fun hg => absurd ((seqGreater_wire hx hy).1 hg) (Nat.not_lt.2 h)), Nat.max_eq_right h]

theorem before_wire (hn : 0 < n) : before (wire n) = wire (n - 1) := by
  unfold before wire
  omega

/-! ## What a step can do -/

/-- A packet of the meta socket or of the data socket, sent, dealt with or left where it is. -/
theorem step_cases (h : step resolveConflicts s e = some s') :
    (MayNumber s ∧ (s' = { s with packetSeq := s.packetSeq + 1, msock := s.msock ++ [s.packetSeq + 1] } ∨
      s' = { s with packetSeq := s.packetSeq + 1, sock := s.sock ++ [s.packetSeq + 1] })) ∨
    (∃ n rest, s.msock = n :: rest ∧ s' = { s with
      peerSeq := updatePeerSeq resolveConflicts s.peerSeq (wire n), msock := rest, accounted := s.accounted ++ [n] }) ∨
    (∃ m n rest p, e = .data m ∧ s.sock = n :: rest ∧
      receiveData resolveConflicts m s.peerSeq (wire n) = .process p ∧
      s' = { s with peerSeq := p, sock := rest, accounted := s.accounted ++ [n] }) ∨
    s' = s ∨ s' = { s with disconnecting := true } := by
  cases e with
  | peerSendsAck =>
      simp only [step, Option.ite_none_right_eq_some, Option.some.injEq] at h
      exact .inl ⟨h.1, .inl h.2.symm⟩
  | peerSendsData =>
      simp only [step, Option.ite_none_right_eq_some, Option.some.injEq] at h
      exact .inl ⟨h.1, .inr h.2.symm⟩
  | ack =>
      simp only [step] at h
      split at h
      · cases h
      · exact .inr (.inl ⟨_, _, ‹_›, (Option.some.inj h).symm⟩)
  | data m =>
      simp only [step] at h
      split at h
      · split at h
        · exact .inr (.inr (.inl ⟨_, _, _, _, rfl, ‹_›, ‹_›, (Option.some.inj h).symm⟩))
        · exact .inr (.inr (.inr (.inl (Option.some.inj h).symm)))
        · exact .inr (.inr (.inr (.inr (Option.some.inj h).symm)))
      · cases h

theorem step_forward (h : step resolveConflicts s e = some s') : ¬ seqGreater s.peerSeq s'.peerSeq := by
  obtain ⟨_, rfl | rfl⟩ | ⟨n, rest, _, rfl⟩ | ⟨m, n, rest, p, _, _, hp, rfl⟩ | rfl | rfl := step_cases h
  · exact not_seqGreater_self _
  · exact not_seqGreater_self _
  · exact not_seqGreater_updatePeerSeq _ _
  · exact not_seqGreater_receiveData hp
  · exact not_seqGreater_self _
  · exact not_seqGreater_self _

/-! ## The invariant -/

/-- On the node that resolves conflicts, while two primaries are allowed. -/
structure Ordered (s : State) : Prop where
  peerSeq : s.peerSeq = wire s.greatest
  le : s.greatest ≤ s.packetSeq
  sent : ∀ k, 0 < k → k ≤ s.packetSeq → k ∈ s.accounted ∨ k ∈ s.msock ∨ k ∈ s.sock
  /-- No ack was passed over. -/
  late : ∀ k ∈ s.msock, s.greatest < k
  acks : s.msock.Pairwise (· < ·)
  datas : s.sock.Pairwise (· < ·)
  disjoint : ∀ k ∈ s.msock, k ∉ s.sock
  inFlight : ∀ k ∈ s.msock ++ s.sock, 0 < k ∧ k ≤ s.packetSeq
  window : ∀ k ∈ s.msock ++ s.sock, s.packetSeq - k + 1 < 2 ^ 31

theorem start_ordered : Ordered start where
  peerSeq := rfl
  le := Nat.le_refl 0
  sent k hk hle := absurd (Nat.lt_of_lt_of_le hk hle) (Nat.lt_irrefl 0)
  late k hk := by cases hk
  acks := .nil
  datas := .nil
  disjoint k hk := by cases hk
  inFlight k hk := by cases hk
  window k hk := by cases hk

theorem le_foldl_max (l : List Nat) (a : Nat) : a ≤ l.foldl max a ∧ ∀ k ∈ l, k ≤ l.foldl max a := by
  induction l generalizing a with
  | nil => exact ⟨Nat.le_refl a, fun k hk => by cases hk⟩
  | cons x l ih =>
      obtain ⟨ha, hl⟩ := ih (max a x)
      refine ⟨(Nat.le_max_left a x).trans ha, fun k hk => ?_⟩
      rcases List.mem_cons.1 hk with rfl | hk
      · exact (Nat.le_max_right a k).trans ha
      · exact hl k hk

theorem State.le_greatest {k : Nat} (h : k ∈ s.accounted) : k ≤ s.greatest :=
  (le_foldl_max s.accounted 0).2 k h

theorem greatest_append (l : List Nat) (n : Nat) : (l ++ [n]).foldl max 0 = max (l.foldl max 0) n := by
  rw [List.foldl_append]
  rfl

/-- What was numbered is less than half a turn ahead: the first number that was not reached is outstanding. -/
theorem Ordered.ahead (h : Ordered s) : s.packetSeq < s.greatest + 2 ^ 31 := by
  rcases Nat.lt_or_ge s.greatest s.packetSeq with hlt | hge
  · have hflight : s.greatest + 1 ∈ s.msock ++ s.sock := by
      rcases h.sent (s.greatest + 1) (Nat.succ_pos _) hlt with hacc | hflight
      · exact absurd (State.le_greatest hacc) (Nat.not_succ_le_self _)
      · exact List.mem_append.2 hflight
    have hw := h.window _ hflight
    omega
  · omega

theorem Ordered.number (h : Ordered s) (hmay : MayNumber s) (s' : State)
    (hs' : s' = { s with packetSeq := s.packetSeq + 1, msock := s.msock ++ [s.packetSeq + 1] } ∨
      s' = { s with packetSeq := s.packetSeq + 1, sock := s.sock ++ [s.packetSeq + 1] }) : Ordered s' := by
  have hnew : ∀ {k}, k ∈ s.msock ++ s.sock → k ≠ s.packetSeq + 1 := fun hk =>
    Nat.ne_of_lt (Nat.lt_succ_of_le (h.inFlight _ hk).2)
  have hsent : ∀ k, 0 < k → k ≤ s.packetSeq + 1 →
      (k ∈ s.accounted ∨ k ∈ s.msock ∨ k ∈ s.sock) ∨ k = s.packetSeq + 1 := by
    intro k hk hle
    rcases Nat.lt_or_ge s.packetSeq k with hlt | hge
    · exact .inr (Nat.le_antisymm hle hlt)
    · exact .inl (h.sent k hk hge)
  have hfl : ∀ k, k ∈ s.msock ++ s.sock ∨ k = s.packetSeq + 1 →
      (0 < k ∧ k ≤ s.packetSeq + 1) ∧ s.packetSeq + 1 - k + 1 < 2 ^ 31 := by
    rintro k (hk | rfl)
    · have hin := h.inFlight k hk
      exact ⟨⟨hin.1, Nat.le_succ_of_le hin.2⟩, hmay k hk⟩
    · omega
  rcases hs' with rfl | rfl
  · have hmem : ∀ k, k ∈ (s.msock ++ [s.packetSeq + 1]) ++ s.sock → k ∈ s.msock ++ s.sock ∨ k = s.packetSeq + 1 := by
      intro k hk
      simp only [List.mem_append, List.mem_singleton] at hk ⊢
      tauto
    refine ⟨h.peerSeq, Nat.le_succ_of_le h.le, ?_, ?_, ?_, h.datas, ?_, fun k hk => (hfl k (hmem k hk)).1,
      fun k hk => (hfl k (hmem k hk)).2⟩
    · intro k hk hle
      have hk' := hsent k hk hle
      simp only [List.mem_append, List.mem_singleton]
      tauto
    · intro k hk
      rcases List.mem_append.1 hk with hk | hk
      · exact h.late k hk
      · rw [List.mem_singleton.1 hk]
        exact Nat.lt_succ_of_le h.le
    · refine List.pairwise_append.2 ⟨h.acks, List.pairwise_singleton _ _, fun a ha b hb => ?_⟩
      rw [List.mem_singleton.1 hb]
      exact Nat.lt_succ_of_le (h.inFlight a (List.mem_append_left _ ha)).2
    · intro k hk
      rcases List.mem_append.1 hk with hk | hk
      · exact h.disjoint k hk
      · exact fun hs => hnew (List.mem_append_right _ hs) (List.mem_singleton.1 hk)
  · have hmem : ∀ k, k ∈ s.msock ++ (s.sock ++ [s.packetSeq + 1]) → k ∈ s.msock ++ s.sock ∨ k = s.packetSeq + 1 := by
      intro k hk
      simp only [List.mem_append, List.mem_singleton] at hk ⊢
      tauto
    refine ⟨h.peerSeq, Nat.le_succ_of_le h.le, ?_, h.late, h.acks, ?_, ?_, fun k hk => (hfl k (hmem k hk)).1,
      fun k hk => (hfl k (hmem k hk)).2⟩
    · intro k hk hle
      have hk' := hsent k hk hle
      simp only [List.mem_append, List.mem_singleton]
      tauto
    · refine List.pairwise_append.2 ⟨h.datas, List.pairwise_singleton _ _, fun a ha b hb => ?_⟩
      rw [List.mem_singleton.1 hb]
      exact Nat.lt_succ_of_le (h.inFlight a (List.mem_append_right _ ha)).2
    · intro k hk hs
      rcases List.mem_append.1 hs with hs | hs
      · exact h.disjoint k hk hs
      · exact hnew (List.mem_append_left _ hk) (List.mem_singleton.1 hs)

theorem Ordered.ack (h : Ordered s) (hm : s.msock = n :: rest) :
    Ordered { s with
      peerSeq := updatePeerSeq true s.peerSeq (wire n), msock := rest, accounted := s.accounted ++ [n] } := by
  have hin : n ∈ s.msock := hm ▸ List.mem_cons_self
  have hsub : ∀ k ∈ rest, k ∈ s.msock := fun k hk => hm ▸ List.mem_cons_of_mem n hk
  have hsub' : ∀ k ∈ rest ++ s.sock, k ∈ s.msock ++ s.sock := fun k hk =>
    List.mem_append.2 ((List.mem_append.1 hk).imp (hsub k) id)
  have hacks : (∀ k ∈ rest, n < k) ∧ rest.Pairwise (· < ·) := List.pairwise_cons.1 (hm ▸ h.acks)
  have hlate := h.late n hin
  have hle := (h.inFlight n (List.mem_append_left _ hin)).2
  have hahead := h.ahead
  have hgreatest : (s.accounted ++ [n]).foldl max 0 = n := by
    rw [greatest_append]
    exact Nat.max_eq_right (Nat.le_of_lt hlate)
  refine ⟨?_, hgreatest.trans_le hle, ?_, ?_, hacks.2, h.datas, fun k hk => h.disjoint k (hsub k hk),
    fun k hk => h.inFlight k (hsub' k hk), fun k hk => h.window k (hsub' k hk)⟩
  · show updatePeerSeq true s.peerSeq (wire n) = wire ((s.accounted ++ [n]).foldl max 0)
    rw [hgreatest, updatePeerSeq, if_pos rfl, h.peerSeq, seqMax_wire (by omega) (by omega),
      Nat.max_eq_right (Nat.le_of_lt hlate)]
  · intro k hk hkle
    rcases h.sent k hk hkle with hacc | hack | hdata
    · exact .inl (List.mem_append_left _ hacc)
    · rcases List.mem_cons.1 (hm ▸ hack) with rfl | hrest
      · exact .inl (List.mem_append_right _ List.mem_cons_self)
      · exact .inr (.inl hrest)
    · exact .inr (.inr hdata)
  · intro k hk
    exact hgreatest.trans_lt (hacks.1 k hk)

/-- A data packet is let through only next to what was reached. -/
theorem Ordered.admitted (h : Ordered s) (hs : s.sock = n :: rest) (htp : TwoPrimaries (.data m)) {p : Nat}
    (hp : receiveData true m s.peerSeq (wire n) = .process p) :
    n - 1 ≤ s.greatest ∧ p = wire (max s.greatest n) := by
  have hin : n ∈ s.msock ++ s.sock := hs ▸ List.mem_append_right _ List.mem_cons_self
  have hbound := h.inFlight n hin
  have hwin := h.window n hin
  have hle := h.le
  have hahead := h.ahead
  rw [receiveData, if_pos (.inr htp.1), waitForAndUpdatePeerSeq, if_neg (by decide), h.peerSeq,
    before_wire hbound.1] at hp
  split at hp
  · rename_i hreached
    rw [seqGreater_wire (by omega) (by omega)] at hreached
    refine ⟨Nat.not_lt.1 hreached, ?_⟩
    cases hp
    exact seqMax_wire (by omega) (by omega)
  · rw [if_neg (show ¬ m.stillTwoPrimaries = false by rw [htp.2]; decide)] at hp
    split at hp
    · cases hp
    · split at hp <;> cases hp

theorem Ordered.before (h : Ordered s) (hs : s.sock = n :: rest) (hn : n - 1 ≤ s.greatest) {k : Nat} (hk : 0 < k)
    (hlt : k < n) : k ∈ s.accounted := by
  have hin : n ∈ s.msock ++ s.sock := hs ▸ List.mem_append_right _ List.mem_cons_self
  rcases h.sent k hk ((Nat.le_of_lt hlt).trans (h.inFlight n hin).2) with hacc | hack | hdata
  · exact hacc
  · have := h.late k hack
    omega
  · rcases List.mem_cons.1 (hs ▸ hdata) with rfl | hrest
    · omega
    · have := (List.pairwise_cons.1 (hs ▸ h.datas)).1 k hrest
      omega

theorem Ordered.data (h : Ordered s) (hs : s.sock = n :: rest) (hn : n - 1 ≤ s.greatest) :
    Ordered { s with peerSeq := wire (max s.greatest n), sock := rest, accounted := s.accounted ++ [n] } := by
  have hin : n ∈ s.sock := hs ▸ List.mem_cons_self
  have hsub : ∀ k ∈ s.msock ++ rest, k ∈ s.msock ++ s.sock := fun k hk =>
    List.mem_append.2 ((List.mem_append.1 hk).imp id (fun hr => hs ▸ List.mem_cons_of_mem n hr))
  have hgreatest : (s.accounted ++ [n]).foldl max 0 = max s.greatest n := greatest_append _ _
  refine ⟨congrArg wire hgreatest.symm, ?_, ?_, ?_, h.acks, (List.pairwise_cons.1 (hs ▸ h.datas)).2, ?_,
    fun k hk => h.inFlight k (hsub k hk), fun k hk => h.window k (hsub k hk)⟩
  · exact hgreatest.trans_le (Nat.max_le.2 ⟨h.le, (h.inFlight n (List.mem_append_right _ hin)).2⟩)
  · intro k hk hkle
    rcases h.sent k hk hkle with hacc | hack | hdata
    · exact .inl (List.mem_append_left _ hacc)
    · exact .inr (.inl hack)
    · rcases List.mem_cons.1 (hs ▸ hdata) with rfl | hrest
      · exact .inl (List.mem_append_right _ List.mem_cons_self)
      · exact .inr (.inr hrest)
  · intro k hk
    have hlate := h.late k hk
    have hne : k ≠ n := fun he => h.disjoint k hk (he ▸ hin)
    exact hgreatest.trans_lt (Nat.max_lt.2 ⟨hlate, by omega⟩)
  · exact fun k hk hr => h.disjoint k hk (hs ▸ List.mem_cons_of_mem n hr)

theorem Ordered.step (h : Ordered s) (htp : TwoPrimaries e) (hstep : step true s e = some s') : Ordered s' := by
  obtain ⟨hmay, hs'⟩ | ⟨n, rest, hm, rfl⟩ | ⟨m, n, rest, p, rfl, hs, hp, rfl⟩ | rfl | rfl := step_cases hstep
  · exact h.number hmay s' hs'
  · exact h.ack hm
  · obtain ⟨hn, rfl⟩ := h.admitted hs htp hp
    exact h.data hs hn
  · exact h
  · exact ⟨h.peerSeq, h.le, h.sent, h.late, h.acks, h.datas, h.disjoint, h.inFlight, h.window⟩

/-! ## Every run -/

theorem ordered_run {es : List Event} (h : run (PeerSeq.step true) start es = some s) (htp : ∀ e ∈ es, TwoPrimaries e) :
    Ordered s := by
  have hall : ∀ {es s₀}, Ordered s₀ → (∀ e ∈ es, TwoPrimaries e) → run (PeerSeq.step true) s₀ es = some s →
      Ordered s := by
    intro es
    induction es with
    | nil =>
        intro s₀ h₀ _ hrun
        cases hrun
        exact h₀
    | cons e es ih =>
        intro s₀ h₀ hes hrun
        obtain ⟨t, ht, hrest⟩ := run_cons hrun
        exact ih (h₀.step (hes e List.mem_cons_self) ht) (fun e' he' => hes e' (List.mem_cons_of_mem e he')) hrest
  exact hall start_ordered htp h

/-- `peer_seq` never goes back. On the node that resolves conflicts, while two primaries are allowed, it is
the greatest number that was dealt with, and a data packet is processed only after everything before it. -/
theorem acks_before_data {resolveConflicts : Bool} {es : List Event} {s s' : State} {e : Event}
    (h : run (step resolveConflicts) start es = some s) (hstep : step resolveConflicts s e = some s') :
    ¬ seqGreater s.peerSeq s'.peerSeq ∧
    (resolveConflicts = true → (∀ e' ∈ e :: es, TwoPrimaries e') →
      s.peerSeq = wire s.greatest ∧ s'.peerSeq = wire s'.greatest ∧ s.greatest ≤ s'.greatest ∧
      ∀ n, Processes s s' n → ∀ k, 0 < k → k < n → k ∈ s.accounted) := by
  refine ⟨step_forward hstep, ?_⟩
  rintro rfl htp
  have hs : Ordered s := ordered_run h fun e' he' => htp e' (List.mem_cons_of_mem e he')
  have hs' : Ordered s' := hs.step (htp e List.mem_cons_self) hstep
  refine ⟨hs.peerSeq, hs'.peerSeq, ?_, ?_⟩
  · obtain ⟨_, rfl | rfl⟩ | ⟨n, rest, _, rfl⟩ | ⟨m, n, rest, p, _, _, _, rfl⟩ | rfl | rfl := step_cases hstep
    · exact Nat.le_refl _
    · exact Nat.le_refl _
    · exact (Nat.le_max_left _ n).trans_eq (greatest_append _ n).symm
    · exact (Nat.le_max_left _ n).trans_eq (greatest_append _ n).symm
    · exact Nat.le_refl _
    · exact Nat.le_refl _
  · intro n hproc k hk hlt
    unfold Processes at hproc
    obtain ⟨_, rfl | rfl⟩ | ⟨_, _, _, rfl⟩ | ⟨m, n', rest, p, rfl, hsock, hp, rfl⟩ | rfl | rfl := step_cases hstep
    · exact absurd (congrArg List.length hproc) (by simp)
    · exact absurd (congrArg List.length hproc) (by simp; omega)
    · exact absurd (congrArg List.length hproc) (by simp)
    · obtain rfl : n' = n := (List.cons.inj (hsock.symm.trans hproc)).1
      exact hs.before hsock (hs.admitted hsock (htp _ List.mem_cons_self) hp).1 hk hlt
    · exact absurd (congrArg List.length hproc) (by simp)
    · exact absurd (congrArg List.length hproc) (by simp)

def calm : Moment := ⟨true, true, false, true, false⟩

/-- An ack and data after it; the data comes first and waits. -/
def lateAck : List Event := [.peerSendsAck, .peerSendsData, .data calm, .ack]

theorem acks_before_data_late : ∃ s s', run (step true) start lateAck = some s ∧ step true s (.data calm) = some s' ∧
    Processes s s' 2 ∧ 1 ∈ s.accounted := by
  have hrun : run (step true) start lateAck = some ⟨1, 2, [], [2], [1], false⟩ := by decide
  have hstep : step true ⟨1, 2, [], [2], [1], false⟩ (.data calm) = some ⟨2, 2, [], [], [1, 2], false⟩ := by decide
  have hbefore := ((acks_before_data hrun hstep).2 rfl (by decide)).2.2.2
  exact ⟨_, _, hrun, hstep, rfl, hbefore 2 rfl 1 (by decide) (by decide)⟩

/-- The other node does not wait for the ack that was sent before the data. -/
theorem data_overtakes_ack : ∃ s s',
    run (step false) start [.peerSendsAck, .peerSendsData] = some s ∧ step false s (.data calm) = some s' ∧
    TwoPrimaries (.data calm) ∧ Processes s s' 2 ∧ 1 ∉ s.accounted :=
  ⟨_, _, rfl, rfl, by decide, rfl, by decide⟩

end Drbd.PeerSeq
