import Drbd.Request.Volume

/-!
# How a request ends

The activity log is given up, and the request freed, in `drbd_req_destroy` alone.
-/

namespace Drbd.Request

open State

variable {env : Env} {r r' r'' : DrbdRequest} {what : Event}

/-- The effects that only the end of a request has. -/
def Effect.isFinal : Effect → Bool
  | alCompleteIo | alLost | free => true
  | _ => false

/-- The request goes on, with nothing final added to its log. -/
def Quiet (r r' : DrbdRequest) : Prop :=
  r'.freed = r.freed ∧ ∃ l, r'.log = r.log ++ l ∧ ∀ e ∈ l, e.isFinal = false

/-- The request ends: the last it does is what `drbd_req_destroy` does. -/
def Ends (env : Env) (r r' : DrbdRequest) : Prop :=
  r'.freed = true ∧ ∃ l, r'.log = r.log ++ l ++ destroyEffects env r'.rqState ∧ ∀ e ∈ l, e.isFinal = false

theorem Quiet.refl (r : DrbdRequest) : Quiet r r := ⟨rfl, [], by simp, by simp⟩

theorem Quiet.of_same (hfreed : r'.freed = r.freed) (hlog : r'.log = r.log) : Quiet r r' :=
  ⟨hfreed, [], by simp [hlog], by simp⟩

theorem Quiet.effect (r : DrbdRequest) {e : Effect} (he : e.isFinal = false) : Quiet r (r.effect e) :=
  ⟨rfl, [e], rfl, by simpa using he⟩

theorem Quiet.trans (h : Quiet r r') (h' : Quiet r' r'') : Quiet r r'' := by
  obtain ⟨hf, l, hl, hq⟩ := h
  obtain ⟨hf', l', hl', hq'⟩ := h'
  refine ⟨hf'.trans hf, l ++ l', by rw [hl', hl, List.append_assoc], fun e he => ?_⟩
  rcases List.mem_append.1 he with he | he
  · exact hq e he
  · exact hq' e he

theorem Quiet.ends (h : Quiet r r') (h' : Ends env r' r'') : Ends env r r'' := by
  obtain ⟨-, l, hl, hq⟩ := h
  obtain ⟨hf', l', hl', hq'⟩ := h'
  refine ⟨hf', l ++ l', by rw [hl', hl, List.append_assoc r.log], fun e he => ?_⟩
  rcases List.mem_append.1 he with he | he
  · exact hq e he
  · exact hq' e he

/-- A step of the request: it goes on or ends. -/
def Outcome (env : Env) (r r' : DrbdRequest) : Prop :=
  Quiet r r' ∨ Ends env r r'

theorem Quiet.outcome (h : Quiet r r') (h' : Outcome env r' r'') : Outcome env r r'' := by
  rcases h' with h' | h'
  · exact .inl (h.trans h')
  · exact .inr (h.ends h')

theorem outcome_krefSub (env : Env) (r : DrbdRequest) (put : Int) : Outcome env r (krefSub env r put) := by
  unfold krefSub drbdReqDestroy
  dsimp only
  split
  · split
    · exact .inl (Quiet.trans (.of_same rfl rfl) (.effect _ rfl))
    · exact .inr ⟨rfl, [], by simp, by simp⟩
  · exact .inl (.of_same rfl rfl)

theorem quiet_drbdReqComplete (r : DrbdRequest) : Quiet r (drbdReqComplete r) := by
  unfold drbdReqComplete
  dsimp only
  split
  · exact .effect r rfl
  · split
    · exact .effect r rfl
    · split
      · exact .of_same rfl rfl
      · split
        · exact .of_same rfl rfl
        · exact ⟨rfl, [_], rfl, by simp [Effect.isFinal]⟩

theorem quiet_drbdReqPutCompletionRef (r : DrbdRequest) (put : Int) :
    Quiet r (drbdReqPutCompletionRef r put).1 := by
  unfold drbdReqPutCompletionRef
  dsimp only
  have hq : Quiet r (drbdReqComplete { r with completionRef := r.completionRef - put }) :=
    Quiet.trans (.of_same rfl rfl)
      (quiet_drbdReqComplete _)
  split
  · exact .of_same rfl rfl
  · split
    · exact hq.trans ((Quiet.effect _ (e := .restartRequest) rfl).trans (.of_same rfl rfl))
    · exact hq

theorem outcome_putRefs (env : Env) (r : DrbdRequest) (cPut kPut : Nat) :
    Outcome env r (putRefs env r cPut kPut) := by
  unfold putRefs
  split
  · split
    · exact .inl (.refl r)
    · exact outcome_krefSub env r kPut
  · have hq := quiet_drbdReqPutCompletionRef r cPut
    dsimp only
    split
    · exact .inl hq
    · exact hq.outcome (outcome_krefSub env _ _)

theorem outcome_modRqState (env : Env) (r : DrbdRequest) (clear set : RqState) :
    Outcome env r (modRqState env r clear set) := by
  unfold modRqState
  dsimp only
  split
  · exact .inl (.refl r)
  · refine Quiet.outcome ?_ (outcome_putRefs env _ _ _)
    have hbug : ∀ (c : Prop) [Decidable c] (q : DrbdRequest), Quiet r q →
        Quiet r (if c then q.effect .bugRefcount else q) := by
      intro c _ q hq
      split
      · exact hq.trans (.effect q rfl)
      · exact hq
    exact hbug _ _ (.of_same rfl rfl)

theorem outcome_lastChange (env : Env) (r : DrbdRequest) (what : Event) :
    Outcome env r (lastChange env r what) := by
  have hq : Quiet r { bookkeeping r what with rqState := directBits env r.rqState what } := by
    cases what with
    | readCompletedWithError => exact Quiet.trans (.effect r rfl) (.of_same rfl rfl)
    | restartFrozenDiskIo =>
        refine .of_same ?_ ?_ <;> simp only [bookkeeping] <;> split <;> rfl
    | _ => exact .of_same rfl rfl
  unfold lastChange
  dsimp only
  split
  · exact .inl hq
  · exact hq.outcome (outcome_modRqState env _ _ _)

theorem outcome_reqMod (hs : reqMod env r what = some r') : Outcome env r r' := by
  obtain ⟨q, hlive, rfl, hq⟩ := reqMod_cases hs
  rcases hq with rfl | ⟨-, -, hq⟩
  · exact outcome_lastChange env q what
  · have hfirst := outcome_modRqState env r { noBits with netPending := true } { noBits with netOk := true }
    rw [← hq] at hfirst
    rcases hfirst with hfirst | ⟨hfreed, -⟩
    · exact hfirst.outcome (outcome_lastChange env q what)
    · rw [hlive] at hfreed
      cases hfreed

theorem outcome_step {act : Act} (hs : step r (env, act) = some r') : Outcome env r r' := by
  cases act with
  | event what => exact outcome_reqMod hs
  | inActLog | addToTransferLog | pushBack =>
      simp only [step] at hs
      split at hs
      · cases hs
        exact .inl (.of_same rfl rfl)
      · cases hs
  | putSubmitter =>
      simp only [step] at hs
      split at hs
      · cases hs
        have hq : Quiet r (drbdReqPutCompletionRef { r with submitter := false } 1).1 :=
          Quiet.trans (.of_same rfl rfl) (quiet_drbdReqPutCompletionRef _ _)
        split
        · exact hq.outcome (outcome_krefSub env _ _)
        · exact .inl hq
      · cases hs
  | doRetry =>
      simp only [step] at hs
      split at hs
      · cases hs
        exact Quiet.outcome (.of_same rfl rfl) (outcome_krefSub env _ _)
      · cases hs

end Drbd.Request
