import Drbd.Request.Lemmas.Balance

/-!
# The invariant of a request
-/

namespace Drbd.Request

variable {env : Env} {r r' : DrbdRequest} {s clear set : RqState}

def Effect.isCompletion : Effect → Bool
  | completeMasterBio _ => true
  | _ => false

/-- No message of a logic bug, and the master bio was completed once if it is gone. -/
structure LogOk (r : DrbdRequest) : Prop where
  noBug : ∀ e ∈ r.log, e.isBug = false
  completions : r.log.countP Effect.isCompletion = (!r.masterBio).toNat

theorem LogOk.effect (h : LogOk r) {e : Effect} (hbug : e.isBug = false) (hcompl : e.isCompletion = false) :
    LogOk (r.effect e) := by
  refine ⟨fun e' he => ?_, ?_⟩
  · rcases List.mem_append.1 he with he | he
    · exact h.noBug e' he
    · rw [List.mem_singleton.1 he]
      exact hbug
  · show (r.log ++ [e]).countP _ = _
    rw [List.countP_append, h.completions]
    simp [hcompl, DrbdRequest.effect]

/-- What came back from the peer, or went to it, is accounted for by an ack still to come, or is done. -/
def RqState.Answered (s : RqState) : Prop :=
  (s.netSent = true ∨ s.netOk = true ∨ s.netSis = true) →
    s.expBarrAck = true ∨ s.netDone = true ∨ s.netPending = true

/-- The invariant, with `kPut` references to the request still to be put. -/
structure Owing (r : DrbdRequest) (kPut : Nat) : Prop where
  live : r.freed = false
  completionRef : r.completionRef = r.submitter.toNat + r.rqState.completionRefs
  kref : r.kref = (decide (0 < r.completionRef)).toNat + r.rqState.krefs + r.retry.toNat + kPut
  retry : r.retry = true → r.completionRef = 0
  master : 0 < r.completionRef → r.masterBio = true
  late : r.completionRef = 0 → r.masterBio = true → r.rqState.postponed = true
  answered : r.rqState.Answered
  log : LogOk r

def Inv (r : DrbdRequest) : Prop :=
  Owing r 0

/-- After a step the request lives on, or is freed with nothing gone wrong. -/
def Fine (r : DrbdRequest) : Prop :=
  Inv r ∨ (r.freed = true ∧ LogOk r ∧ r.rqState.completionRefs = 0)

theorem Fine.log (h : Fine r) : LogOk r := by
  rcases h with h | h
  · exact h.log
  · exact h.2.1

theorem Inv.balanced (h : Inv r) : Balanced r :=
  ⟨h.completionRef, by rw [h.kref]; rfl⟩

theorem inv_drbdReqNew (rw : Rw) : Inv (drbdReqNew rw) where
  live := rfl
  completionRef := rfl
  kref := rfl
  retry h := by cases h
  master _ := rfl
  late h := by cases h
  answered h := by rcases h with h | h | h <;> cases h
  log := ⟨fun e he => by simp [drbdReqNew] at he, rfl⟩

/-! ## Destruction and completion -/

/-- What a request must be when its last reference is put. -/
structure Releasable (r : DrbdRequest) : Prop where
  completionRef : r.completionRef = 0
  master : r.masterBio = true → r.rqState.postponed = true
  localPending : r.rqState.localPending = false
  net : r.rqState.netMask = true → r.rqState.netDone = true

theorem destroyEffects_noBug (env : Env) (s : RqState) :
    ∀ e ∈ destroyEffects env s, e.isBug = false ∧ e.isCompletion = false := by
  intro e he
  have hone : ∀ {c : Prop} [Decidable c] {e' : Effect}, e ∈ (if c then [e'] else []) → e = e' := by
    intro c _ e' hin
    split at hin
    · exact List.mem_singleton.1 hin
    · cases hin
  unfold destroyEffects at he
  dsimp only at he
  rcases List.mem_append.1 he with he | he
  · split at he
    · rcases List.mem_append.1 he with he | he
      · split at he
        · cases he
        · rcases List.mem_append.1 he with he | he <;> rw [hone he] <;> exact ⟨rfl, rfl⟩
      · split at he
        · split at he <;> rw [List.mem_singleton.1 he] <;> exact ⟨rfl, rfl⟩
        · cases he
    · cases he
  · rw [List.mem_singleton.1 he]
    exact ⟨rfl, rfl⟩

theorem destroyBug_eq_false (h : Releasable r) : destroyBug r = false := by
  have hm : (r.masterBio && !r.rqState.postponed) = false := by
    cases hb : r.masterBio
    · rfl
    · rw [h.master hb]
      rfl
  have hn : (r.rqState.netMask && !r.rqState.netDone) = false := by
    cases hb : r.rqState.netMask
    · rfl
    · rw [h.net hb]
      rfl
  simp [destroyBug, hm, h.completionRef, h.localPending, hn]

theorem LogOk.destroy (hlog : LogOk r) (h : Releasable r) :
    (drbdReqDestroy env r).freed = true ∧ LogOk (drbdReqDestroy env r) := by
  rw [drbdReqDestroy, destroyBug_eq_false h, if_neg (by decide)]
  refine ⟨rfl, fun e he => ?_, ?_⟩
  · rcases List.mem_append.1 he with he | he
    · exact hlog.noBug e he
    · exact (destroyEffects_noBug env _ e he).1
  · show (r.log ++ _).countP _ = _
    have hnone : (destroyEffects env r.rqState).countP Effect.isCompletion = 0 := by
      rw [List.countP_eq_zero]
      intro e he
      rw [(destroyEffects_noBug env _ e he).2]
      decide
    rw [List.countP_append, hlog.completions, hnone]
    rfl

/-- A request without references is releasable: its bits stand for none. -/
theorem releasable_of_refs (hc : r.completionRef = 0) (hrefs : r.rqState.completionRefs = 0)
    (hk : r.rqState.krefs = 0) (hm : r.masterBio = true → r.rqState.postponed = true)
    (ha : r.rqState.Answered) : Releasable r := by
  simp only [RqState.completionRefs, RqState.krefs] at hrefs hk
  have hnp : r.rqState.netPending = false := by
    cases h : r.rqState.netPending
    · rfl
    · rw [h] at hrefs; simp at hrefs
  have hnq : r.rqState.netQueued = false := by
    cases h : r.rqState.netQueued
    · rfl
    · rw [h] at hrefs; simp at hrefs
  refine ⟨hc, hm, ?_, fun hmask => ?_⟩
  · cases h : r.rqState.localPending
    · rfl
    · rw [h] at hrefs hk
      cases h' : r.rqState.localAborted <;> rw [h'] at hrefs hk <;> simp at hrefs hk
  · cases hd : r.rqState.netDone
    · exfalso
      simp only [RqState.netMask, hnp, hnq, hd, Bool.false_or, Bool.or_false, Bool.or_eq_true] at hmask
      have hb := ha (by rcases hmask with (h | h) | h <;> simp [h])
      rw [hd, hnp] at hb
      rcases hb with hb | hb | hb
      · rw [hb, hd] at hk
        simp at hk
      · cases hb
      · cases hb
    · rfl

/-- What is owed is put; the request is freed with its last reference. -/
theorem Owing.put {kPut : Nat} (h : Owing r kPut) : Fine (if kPut = 0 then r else krefSub env r kPut) := by
  split
  · rename_i hz
    subst hz
    exact .inl h
  rename_i hpos
  unfold krefSub
  dsimp only
  have hk := h.kref
  have hlog : LogOk { r with kref := r.kref - kPut } := ⟨h.log.noBug, h.log.completions⟩
  split
  · rename_i hz
    have hzero : r.completionRef = 0 := by
      by_contra hne
      have hc := h.completionRef
      have hlt : 0 < r.completionRef := by omega
      rw [decide_eq_true hlt, Bool.toNat_true] at hk
      omega
    have hc := h.completionRef
    have hrefs : r.rqState.completionRefs = 0 := by omega
    obtain ⟨hfreed, hlog'⟩ := hlog.destroy (releasable_of_refs hzero hrefs
      (by show r.rqState.krefs = 0; omega) (h.late hzero) h.answered)
    refine .inr ⟨hfreed, hlog', ?_⟩
    unfold drbdReqDestroy
    split <;> exact hrefs
  · refine .inl ⟨h.live, h.completionRef, ?_, h.retry, h.master, h.late, h.answered, hlog⟩
    show r.kref - kPut = _
    rw [hk]
    simp

/-- Completion: the master bio is given back, or kept for a restart. -/
theorem drbdReqComplete_eq (hrefs : r.rqState.completionRefs = 0) (hm : r.masterBio = true) :
    ∃ p, (r.rqState.postponed = true → p = true) ∧
      ((p = true ∧ drbdReqComplete r = { r with interval := false, rqState := { r.rqState with postponed := p } }) ∨
        (p = false ∧ ∃ ok, drbdReqComplete r
          = { r with interval := false, rqState := { r.rqState with postponed := p }, masterBio := false,
                     log := r.log ++ [.completeMasterBio ok] })) := by
  have hbug : ((r.rqState.localPending && !r.rqState.localAborted) || r.rqState.netQueued || r.rqState.netPending
      || r.rqState.completionSusp) = false := by
    simp only [RqState.completionRefs] at hrefs
    generalize (r.rqState.localPending && !r.rqState.localAborted) = a, r.rqState.netQueued = b,
      r.rqState.netPending = c, r.rqState.completionSusp = d at *
    revert a b c d
    decide
  unfold drbdReqComplete
  simp only [hbug, hm, Bool.not_true, Bool.false_eq_true, if_false]
  by_cases hretry : (!(r.rqState.localOk || r.rqState.netOk) && decide (r.rw = .read) && r.inList) = true
  · refine ⟨true, fun _ => rfl, .inl ⟨rfl, ?_⟩⟩
    simp only [hretry, if_true]
  · simp only [hretry, Bool.false_eq_true, if_false]
    cases hp : r.rqState.postponed with
    | true => exact ⟨true, fun _ => rfl, .inl ⟨rfl, by rw [if_pos rfl, ← hp]⟩⟩
    | false =>
        refine ⟨false, fun h => h, .inr ⟨rfl, r.rqState.localOk || r.rqState.netOk, ?_⟩⟩
        rw [if_neg (by decide), ← hp]
        rfl

theorem LogOk.complete (h : LogOk r) (hm : r.masterBio = true) (ok : Bool) :
    LogOk { r with masterBio := false, log := r.log ++ [.completeMasterBio ok] } := by
  refine ⟨fun e he => ?_, ?_⟩
  · rcases List.mem_append.1 he with he | he
    · exact h.noBug e he
    · rw [List.mem_singleton.1 he]
      rfl
  · show (r.log ++ _).countP _ = _
    rw [List.countP_append, h.completions, hm]
    rfl

/-- The completion references are put before those to the request. -/
theorem Owing.putCompletion {cPut kPut : Nat} (hlive : r.freed = false) (hlog : LogOk r)
    (hc : r.completionRef = r.submitter.toNat + r.rqState.completionRefs + cPut)
    (hk : r.kref = 1 + r.rqState.krefs + kPut) (hretry : r.retry = false) (hm : r.masterBio = true)
    (ha : r.rqState.Answered) :
    ∃ q more, drbdReqPutCompletionRef r cPut = (q, more) ∧ Owing q (kPut + more.toNat) := by
  unfold drbdReqPutCompletionRef
  dsimp only
  by_cases hz : r.completionRef - cPut = 0
  · rw [if_neg (not_not.2 hz)]
    obtain ⟨p, hp, hcompl⟩ := drbdReqComplete_eq (r := { r with completionRef := r.completionRef - cPut })
      (by show r.rqState.completionRefs = 0; omega) hm
    dsimp only at hp hcompl
    rcases hcompl with ⟨hp', hcompl⟩ | ⟨hp', ok, hcompl⟩
    · refine ⟨_, false, by rw [hcompl]; exact if_pos hp', ?_⟩
      refine ⟨hlive, ?_, ?_, fun _ => hz, fun h => ?_, fun _ _ => hp', ha, ?_⟩
      · show r.completionRef - cPut = r.submitter.toNat + r.rqState.completionRefs
        omega
      · show r.kref = (decide (0 < r.completionRef - cPut)).toNat + r.rqState.krefs + (1 : Nat) + (kPut + 0 : Nat)
        rw [hz]
        simp
        omega
      · have h : 0 < r.completionRef - cPut := h
        omega
      · have := hlog.effect (e := .restartRequest) rfl rfl
        exact ⟨this.noBug, this.completions⟩
    · refine ⟨_, true, by rw [hcompl]; exact if_neg (by rw [hp']; simp), ?_⟩
      refine ⟨hlive, ?_, ?_, fun h => ?_, fun h => ?_, fun _ h => (by cases h), ha, ?_⟩
      · show r.completionRef - cPut = r.submitter.toNat + r.rqState.completionRefs
        omega
      · show r.kref = (decide (0 < r.completionRef - cPut)).toNat + r.rqState.krefs + r.retry.toNat + (kPut + 1 : Nat)
        rw [hz, hretry]
        simp
        omega
      · rw [show r.retry = false from hretry] at h
        cases h
      · have h : 0 < r.completionRef - cPut := h
        omega
      · have := hlog.complete hm ok
        exact ⟨this.noBug, this.completions⟩
  · refine ⟨_, false, if_pos hz, hlive, ?_, ?_, fun h => ?_, fun _ => hm, fun h => absurd h hz, ha,
      ⟨hlog.noBug, hlog.completions⟩⟩
    · show r.completionRef - cPut = r.submitter.toNat + r.rqState.completionRefs
      omega
    · show r.kref = (decide (0 < r.completionRef - cPut)).toNat + r.rqState.krefs + r.retry.toNat + (kPut + 0 : Nat)
      have hlt : 0 < r.completionRef - cPut := by omega
      rw [decide_eq_true hlt, hretry]
      simp
      omega
    · rw [show r.retry = false from hretry] at h
      cases h

theorem fine_putRefs {cPut kPut : Nat} (hlive : r.freed = false) (hlog : LogOk r)
    (hc : r.completionRef = r.submitter.toNat + r.rqState.completionRefs + cPut)
    (hk : r.kref = (decide (0 < r.completionRef)).toNat + r.rqState.krefs + r.retry.toNat + kPut)
    (hretry : r.retry = true → r.completionRef = 0) (hmaster : 0 < r.completionRef → r.masterBio = true)
    (hlate : r.completionRef = 0 → r.masterBio = true → r.rqState.postponed = true)
    (ha : r.rqState.Answered) : Fine (putRefs env r cPut kPut) := by
  unfold putRefs
  by_cases hz : cPut = 0
  · rw [if_pos hz]
    rw [hz] at hc
    exact Owing.put ⟨hlive, hc, hk, hretry, hmaster, hlate, ha, hlog⟩
  · rw [if_neg hz]
    have hpos : 0 < r.completionRef := by omega
    have hnoretry : r.retry = false := by
      cases hr : r.retry
      · rfl
      · have := hretry hr
        omega
    rw [decide_eq_true hpos, hnoretry] at hk
    obtain ⟨q, more, hq, hq'⟩ := Owing.putCompletion hlive hlog hc (by simpa using hk) hnoretry
      (hmaster hpos) ha
    rw [hq]
    exact hq'.put

/-! ## Changing the bits -/

/-- An event does not take a completion reference to a request that has none left. -/
def NotLate (env : Env) (r : DrbdRequest) (clear set : RqState) : Prop :=
  r.completionRef = 0 → completionGet r.rqState (effectiveSet env r.rqState clear set) = 0

theorem fine_modRqState (h : Inv r) (hfits : Fits r.rqState clear (effectiveSet env r.rqState clear set))
    (hlate : NotLate env r clear set)
    (ha : (r.rqState.apply clear (effectiveSet env r.rqState clear set)).Answered) :
    Fine (modRqState env r clear set) := by
  unfold NotLate at hlate
  unfold modRqState
  dsimp only
  generalize effectiveSet env r.rqState clear set = set' at hfits hlate ha ⊢
  split
  · exact .inl h
  have hc := h.completionRef
  have hk := h.kref
  have hcbal := hfits.completionRefs
  have hkbal := hfits.krefs
  obtain ⟨-, -, -, hpost, hpost'⟩ := hfits.keeps
  have hkeep : (r.rqState.apply clear set').postponed = r.rqState.postponed := by
    simp [RqState.apply, hpost, hpost']
  generalize r.rqState.apply clear set' = new at hcbal hkbal ha hkeep ⊢
  generalize completionPut r.rqState clear set' new = cPut at hcbal ⊢
  generalize krefPut r.rqState clear set' new = kPut at hkbal ⊢
  generalize completionGet r.rqState set' = cGet at hcbal hlate ⊢
  generalize krefGet r.rqState set' = kGet at hkbal ⊢
  have hsign : decide (0 < r.completionRef + cGet) = decide (0 < r.completionRef) := by
    refine decide_eq_decide.2 ⟨fun hlt => ?_, fun hlt => by omega⟩
    by_contra hle
    have := hlate (by omega)
    omega
  have hput : cPut ≠ 0 → 0 < r.completionRef := by
    intro hne
    by_contra hle
    have := hlate (by omega)
    omega
  rw [if_neg]
  · refine fine_putRefs h.live ⟨h.log.noBug, h.log.completions⟩ ?_ ?_ (fun hr => ?_) (fun hlt => ?_)
      (fun hz hm => ?_) ha
    · show r.completionRef + cGet = r.submitter.toNat + new.completionRefs + cPut
      omega
    · show r.kref + kGet = (decide (0 < r.completionRef + cGet)).toNat + new.krefs + r.retry.toNat + kPut
      rw [hsign]
      omega
    · have hz := h.retry hr
      have := hlate hz
      show r.completionRef + cGet = 0
      omega
    · have hlt : 0 < r.completionRef + cGet := hlt
      exact h.master (of_decide_eq_true (by rw [← hsign]; exact decide_eq_true hlt))
    · have hz : r.completionRef + cGet = 0 := hz
      show new.postponed = true
      rw [hkeep]
      exact h.late (by omega) hm
  · rintro ⟨-, hlt⟩
    split at hlt
    · omega
    · rename_i hne
      rw [decide_eq_true (hput hne), Bool.toNat_true] at hk
      omega

end Drbd.Request
