import Drbd.Request.Lemmas.Ending

/-!
# The outcome of a write reaches the bitmap

However its local and network parts end, a write that was submitted marks its blocks before its part of
the activity log is given up, unless both sides have it.
-/

namespace Drbd.Request

open Drbd.Lib State Bitmap Noblock

variable {env : Env} {r r' : DrbdRequest} {s : RqState} {what : Event} {v v' : Volume} {act : VolumeAct}

/-! ## Bits that stay -/

/-- The write and activity log bits stay as they are; a local part stays a local part. -/
structure Keeps (s s' : RqState) : Prop where
  write : s'.write = s.write
  inActLog : s'.inActLog = s.inActLog
  localMask : s.localMask = true → s'.localMask = true

theorem Keeps.refl (s : RqState) : Keeps s s := ⟨rfl, rfl, id⟩

theorem Keeps.trans {s' s''} (h : Keeps s s') (h' : Keeps s' s'') : Keeps s s'' :=
  ⟨h'.write.trans h.write, h'.inActLog.trans h.inActLog, fun hl => h'.localMask (h.localMask hl)⟩

/-- The masks of an event: a local part is never cleared without a trace. -/
def MasksKeep (m : RqState × RqState) : Prop :=
  m.1.write = false ∧ m.2.write = false ∧ m.1.inActLog = false ∧ m.2.inActLog = false ∧
    m.1.localOk = false ∧ m.1.localAborted = false ∧
    (m.1.localPending = true → m.2.localCompleted = true) ∧ (m.1.localCompleted = true → m.2.localPending = true)

theorem masks_keep {m : RqState × RqState} (hm : masks r what = some m) : MasksKeep m := by
  have hbarrier : ∀ m, masks.barrierMasks r = some m → MasksKeep m := by
    intro m hm
    unfold masks.barrierMasks at hm
    split at hm
    · cases hm
    · cases hm
      simp [MasksKeep, noBits]
  cases what with
  | failFrozenDiskIo | restartFrozenDiskIo =>
      simp only [masks] at hm
      split at hm
      · cases hm
        simp [MasksKeep, noBits]
      · cases hm
  | resend =>
      simp only [masks] at hm
      split at hm
      · cases hm
        simp [MasksKeep, noBits]
      · split at hm
        · cases hm
          simp [MasksKeep, noBits]
        · exact hbarrier m hm
  | barrierAcked => exact hbarrier m hm
  | postponeWrite => cases hm
  | _ =>
      cases hm
      simp [MasksKeep, noBits]

theorem MasksKeep.apply {clear set : RqState} (h : MasksKeep (clear, set)) (s : RqState) :
    Keeps s (s.apply clear set) := by
  obtain ⟨h₁, h₂, h₃, h₄, h₅, h₆, h₇, h₈⟩ := h
  dsimp only at h₁ h₂ h₃ h₄ h₅ h₆ h₇ h₈
  refine ⟨by simp [RqState.apply, h₁, h₂], by simp [RqState.apply, h₃, h₄], fun hl => ?_⟩
  simp only [RqState.localMask, RqState.apply, h₅, h₆, Bool.not_false, Bool.and_true, Bool.or_eq_true] at hl ⊢
  rcases hl with ((hl | hl) | hl) | hl
  · cases hc : clear.localPending
    · simp [hl]
    · simp [h₇ hc]
  · cases hc : clear.localCompleted
    · simp [hl]
    · simp [h₈ hc]
  · simp [hl]
  · simp [hl]

theorem keeps_modRqState {clear set : RqState} (h : MasksKeep (clear, set)) (env : Env) (r : DrbdRequest) :
    Keeps r.rqState (modRqState env r clear set).rqState := by
  obtain ⟨p, hp⟩ := rqState_modRqState env r clear set
  rw [hp]
  have heff : MasksKeep (clear, effectiveSet env r.rqState clear set) := by
    unfold effectiveSet
    split <;> exact h
  have hk := heff.apply r.rqState
  exact ⟨hk.write, hk.inActLog, hk.localMask⟩

theorem keeps_lastChange (env : Env) (r : DrbdRequest) (what : Event) :
    Keeps r.rqState (lastChange env r what).rqState := by
  have hd : Keeps r.rqState (directBits env r.rqState what) := by
    cases what <;> exact ⟨rfl, rfl, id⟩
  unfold lastChange
  dsimp only
  split
  · exact hd
  · rename_i clear set hm
    exact hd.trans (keeps_modRqState (masks_keep hm) env
      { bookkeeping r what with rqState := directBits env r.rqState what })

theorem keeps_reqMod (hs : reqMod env r what = some r') : Keeps r.rqState r'.rqState := by
  obtain ⟨q, -, rfl, hq⟩ := reqMod_cases hs
  rcases hq with rfl | ⟨-, -, hq⟩
  · exact keeps_lastChange env q what
  · have hfirst : Keeps r.rqState q.rqState := by
      rw [hq]
      exact keeps_modRqState (by simp [MasksKeep, noBits]) env r
    exact hfirst.trans (keeps_lastChange env q what)

/-- What a step of the request does to the three bits. -/
theorem step_bits {act : Act} (hs : step r (env, act) = some r') :
    r'.rqState.write = r.rqState.write ∧
      (r'.rqState.inActLog = true ↔ r.rqState.inActLog = true ∨ act = .inActLog) ∧
      (r.rqState.localMask = true ∨ act = .event .toBeSubmitted → r'.rqState.localMask = true) := by
  have hplain : act ≠ .inActLog → act ≠ .event .toBeSubmitted → Keeps r.rqState r'.rqState →
      r'.rqState.write = r.rqState.write ∧
        (r'.rqState.inActLog = true ↔ r.rqState.inActLog = true ∨ act = .inActLog) ∧
        (r.rqState.localMask = true ∨ act = .event .toBeSubmitted → r'.rqState.localMask = true) := by
    intro h₁ h₂ hk
    refine ⟨hk.write, by simp [hk.inActLog, h₁], fun h => hk.localMask (h.resolve_right h₂)⟩
  cases act with
  | event what =>
      have hk := keeps_reqMod hs
      refine ⟨hk.write, by simp [hk.inActLog], fun h => ?_⟩
      rcases h with h | h
      · exact hk.localMask h
      · cases h
        obtain ⟨q, -, rfl, -⟩ := reqMod_cases hs
        obtain ⟨p, hp⟩ := rqState_modRqState env { bookkeeping q .toBeSubmitted with
          rqState := directBits env q.rqState .toBeSubmitted } noBits { noBits with localPending := true }
        show (modRqState env _ noBits { noBits with localPending := true }).rqState.localMask = true
        rw [hp]
        unfold effectiveSet
        split <;> simp [RqState.localMask, RqState.apply]
  | inActLog =>
      simp only [step] at hs
      split at hs
      · cases hs
        exact ⟨rfl, by simp, fun h => h.resolve_right (by simp)⟩
      · cases hs
  | addToTransferLog | pushBack =>
      simp only [step] at hs
      split at hs
      · cases hs
        exact hplain (by simp) (by simp) ⟨rfl, rfl, id⟩
      · cases hs
  | putSubmitter =>
      simp only [step] at hs
      split at hs
      · cases hs
        refine hplain (by simp) (by simp) ?_
        have hput : Keeps r.rqState (drbdReqPutCompletionRef { r with submitter := false } 1).1.rqState := by
          unfold drbdReqPutCompletionRef
          dsimp only
          split
          · exact .refl _
          · obtain ⟨p, hp⟩ := rqState_drbdReqComplete
              { r with submitter := false, completionRef := r.completionRef - 1 }
            split
            · rw [DrbdRequest.effect, hp]
              exact ⟨rfl, rfl, id⟩
            · rw [hp]
              exact ⟨rfl, rfl, id⟩
        split
        · rw [rqState_krefSub]
          exact hput
        · exact hput
      · cases hs
  | doRetry =>
      simp only [step] at hs
      split at hs
      · cases hs
        refine hplain (by simp) (by simp) ?_
        rw [rqState_krefSub]
        exact .refl _
      · cases hs

/-! ## The volume -/

/-- What stays of a volume whatever happens to its bitmap. -/
structure SameVolume (v v' : Volume) : Prop where
  bmBits : v'.bitmap.bmBits = v.bitmap.bmBits
  sector : v'.sector = v.sector
  size : v'.size = v.size
  capacity : v'.capacity = v.capacity

theorem SameVolume.trans {v''} (h : SameVolume v v') (h' : SameVolume v' v'') : SameVolume v v'' :=
  ⟨h'.bmBits.trans h.bmBits, h'.sector.trans h.sector, h'.size.trans h.size, h'.capacity.trans h.capacity⟩

theorem sameVolume_effect (disk : Disk) (v : Volume) (e : Effect) :
    SameVolume v (v.effect disk e) ∧ (v.effect disk e).req = v.req := by
  cases e with
  | setOutOfSync =>
      simp only [Volume.effect]
      split
      · exact ⟨⟨bmBits_drbdSetOutOfSync, rfl, rfl, rfl⟩, rfl⟩
      · exact ⟨⟨rfl, rfl, rfl, rfl⟩, rfl⟩
  | setInSync =>
      simp only [Volume.effect]
      split
      · refine ⟨⟨?_, rfl, rfl, rfl⟩, rfl⟩
        rcases drbdSetInSync_cases v.capacity v.bitmap v.sector v.size with h | ⟨lo, hi, h, -⟩
        · simp only [h]
        · simp only [h, bmBits_drbdBmClearBits]
      · exact ⟨⟨rfl, rfl, rfl, rfl⟩, rfl⟩
  | _ => exact ⟨⟨rfl, rfl, rfl, rfl⟩, rfl⟩

theorem sameVolume_effects (disk : Disk) (v : Volume) (l : List Effect) :
    SameVolume v (l.foldl (Volume.effect disk) v) := by
  induction l generalizing v with
  | nil => exact ⟨rfl, rfl, rfl, rfl⟩
  | cons e l ih => exact (sameVolume_effect disk v e).1.trans (ih _)

/-- Every block of the request has a bit, and it is set. -/
def Marked (v : Volume) : Prop :=
  ∀ b ∈ blocks v.sector v.size, b < v.bitmap.bmBits ∧ v.bitmap.bit b = true

/-- The request fits its device, as the limits of the queue promise, and the bitmap covers the device:
`drbd_set_my_capacity` and `drbd_bm_resize` cut a size to the same whole 16 MiB. -/
structure Fitting (v : Volume) : Prop where
  onDevice : v.sector + v.size / 512 ≤ v.capacity
  aligned : v.size % 512 = 0
  max : v.size ≤ DRBD_MAX_DISCARD_SIZE
  covered : v.capacity ≤ 8 * v.bitmap.bmBits

theorem Fitting.block_lt {b : Nat} (hf : Fitting v) (hb : b ∈ blocks v.sector v.size) : b < v.bitmap.bmBits := by
  obtain ⟨hsize, -, hhi⟩ := mem_blocks hb
  have hend := hf.onDevice
  have haligned := hf.aligned
  have hcovered := hf.covered
  unfold lastSector bmSectToBit at hhi
  rw [if_neg hsize] at hhi
  omega

/-- The write has a local or network part, and not both sides have it. -/
def RqState.failed (s : RqState) : Bool :=
  s.write && !(s.postponed && !s.localMask && !s.netMask) && !(s.netOk && s.localOk)

theorem destroyEffects_failed (env : Env) (h : s.failed = true) :
    ∃ rest, destroyEffects env s = .setOutOfSync :: rest ∧ .setOutOfSync ∉ rest ∧ .setInSync ∉ rest := by
  simp only [RqState.failed, Bool.and_eq_true, Bool.not_eq_true'] at h
  obtain ⟨⟨hw, hp⟩, hok⟩ := h
  have hno : (!s.netOk || !s.localOk) = true := by
    cases hn : s.netOk <;> cases hl : s.localOk <;> simp_all
  have hsis : (s.netOk && s.localOk && s.netSis) = false := by rw [hok, Bool.false_and]
  refine ⟨(if s.inActLog = true then (if .failed ≤ env.disk then [.alCompleteIo] else [.alLost]) else []) ++ [.free],
    by simp only [destroyEffects, hw, hp, hno, hsis]; rfl, ?_, ?_⟩
  · split
    · split <;> simp
    · simp
  · split
    · split <;> simp
    · simp

/-- The end of a failed write marks its blocks. -/
theorem marked_destroyEffects (hf : Fitting v) (hs : s.failed = true) (hdisk : .inconsistent ≤ env.disk) :
    Marked ((destroyEffects env s).foldl (Volume.effect env.disk) v) := by
  obtain ⟨rest, hrest, hnone, hnone'⟩ := destroyEffects_failed env hs
  rw [hrest, List.foldl_cons]
  have hmark : Marked (v.effect env.disk .setOutOfSync) := by
    intro b hb
    simp only [Volume.effect, if_pos hdisk] at hb ⊢
    have hlt := hf.block_lt hb
    exact ⟨by rw [bmBits_drbdSetOutOfSync]; exact hlt,
      bit_drbdSetOutOfSync_self hf.onDevice hf.aligned hf.max hb hlt⟩
  have hstay : ∀ (l : List Effect) (v : Volume), .setOutOfSync ∉ l → .setInSync ∉ l →
      l.foldl (Volume.effect env.disk) v = v := by
    intro l
    induction l with
    | nil => exact fun _ _ _ => rfl
    | cons e l ih =>
        intro v h₁ h₂
        rw [List.mem_cons, not_or] at h₁ h₂
        have he : v.effect env.disk e = v := by
          cases e with
          | setOutOfSync => exact absurd rfl h₁.1
          | setInSync => exact absurd rfl h₂.1
          | _ => rfl
        rw [List.foldl_cons, he]
        exact ih v h₁.2 h₂.2
  rw [hstay rest _ hnone hnone']
  exact hmark

/-- A live request has given up nothing; one that has ended has marked what it had to, before the rest of
what its end does. -/
structure VolumeInv (v : Volume) : Prop where
  fitting : Fitting v
  live : v.req.freed = false → ∀ e ∈ v.req.log, e.isFinal = false
  ended : v.req.freed = true → ∃ env l, env.disk = v.disk ∧ v.req.log = l ++ destroyEffects env v.req.rqState ∧
    ∀ e ∈ l, e.isFinal = false
  marked : v.req.freed = true → v.req.rqState.failed = true → .inconsistent ≤ v.disk → Marked v

theorem Fitting.same (h : Fitting v) (hs : SameVolume v v') : Fitting v' :=
  ⟨by rw [hs.capacity, hs.sector, hs.size]; exact h.onDevice, by rw [hs.size]; exact h.aligned,
    by rw [hs.size]; exact h.max, by rw [hs.capacity, hs.bmBits]; exact h.covered⟩

theorem endioMark_same (v : Volume) (env : Env) (running : Bool) (act : Act) :
    SameVolume v (v.endioMark env running act) ∧ (v.endioMark env running act).req = v.req := by
  unfold Volume.endioMark
  split
  · exact sameVolume_effect env.disk v .setOutOfSync
  · exact ⟨⟨rfl, rfl, rfl, rfl⟩, rfl⟩

theorem VolumeInv.step (h : VolumeInv v) (hs : v.step act = some v') : VolumeInv v' := by
  cases act with
  | request env running act =>
      simp only [Volume.step] at hs
      obtain ⟨hsame, hreq⟩ := endioMark_same v env running act
      generalize v.endioMark env running act = u at hs hsame hreq
      have hfit := h.fitting.same hsame
      obtain ⟨req, hstep, rfl⟩ := Option.map_eq_some_iff.1 hs
      rw [hreq] at hstep hs ⊢
      have hlive : v.req.freed = false := by
        cases hf : v.req.freed
        · rfl
        · rw [step_freed hf] at hstep
          cases hstep
      have hquiet := h.live hlive
      have heffects := sameVolume_effects env.disk u (req.log.drop v.req.log.length)
      rcases outcome_step hstep with ⟨hfreed, l, hl, hnone⟩ | ⟨hfreed, l, hl, hnone⟩
      · refine ⟨hfit.same ⟨heffects.bmBits, heffects.sector, heffects.size, heffects.capacity⟩, fun _ e he => ?_,
          fun hf => ?_, fun hf => ?_⟩
        · have he : e ∈ v.req.log ++ l := by rw [← hl]; exact he
          rcases List.mem_append.1 he with he | he
          · exact hquiet e he
          · exact hnone e he
        · rw [show _ = v.req.freed from hfreed, hlive] at hf
          cases hf
        · rw [show _ = v.req.freed from hfreed, hlive] at hf
          cases hf
      · refine ⟨hfit.same ⟨heffects.bmBits, heffects.sector, heffects.size, heffects.capacity⟩, fun hf => ?_,
          fun _ => ⟨env, v.req.log ++ l, rfl, hl, fun e he => ?_⟩, fun _ hfail hdisk => ?_⟩
        · rw [show _ = true from hfreed] at hf
          cases hf
        · rcases List.mem_append.1 he with he | he
          · exact hquiet e he
          · exact hnone e he
        · have hdrop : req.log.drop v.req.log.length = l ++ destroyEffects env req.rqState := by
            rw [hl, List.append_assoc, List.drop_left]
          show Marked _
          rw [hdrop, List.foldl_append]
          have hfit' := hfit.same (sameVolume_effects env.disk u l)
          exact marked_destroyEffects hfit' hfail hdisk
  | markAhead env =>
      simp only [Volume.step] at hs
      split at hs
      · rename_i hsub
        cases hs
        obtain ⟨hsame, hreq⟩ := sameVolume_effect env.disk v .setOutOfSync
        have hlive : v.req.freed = false := by simpa using hsub.2
        refine ⟨h.fitting.same hsame, fun _ => by rw [hreq]; exact h.live hlive, fun hf => ?_, fun hf => ?_⟩
        · rw [hreq, hlive] at hf
          cases hf
        · rw [hreq, hlive] at hf
          cases hf
      · cases hs
  | others bitmap =>
      simp only [Volume.step] at hs
      split at hs
      · rename_i hbits
        cases hs
        have hlive : v.req.freed = false := by simpa using hbits.2
        refine ⟨h.fitting.same ⟨hbits.1, rfl, rfl, rfl⟩, fun _ => h.live hlive, fun hf => ?_, fun hf => ?_⟩
        · rw [show _ = v.req.freed from rfl, hlive] at hf
          cases hf
        · rw [show _ = v.req.freed from rfl, hlive] at hf
          cases hf
      · cases hs

/-! ## Runs -/

/-- The write was submitted to the local disk. -/
def Submitted (acts : List VolumeAct) : Prop :=
  ∃ env running, .request env running (.event .toBeSubmitted) ∈ acts

/-- `RQ_IN_ACT_LOG` was set. -/
def InActLog (acts : List VolumeAct) : Prop :=
  ∃ env running, .request env running .inActLog ∈ acts

theorem volumeStep_bits (hs : v.step act = some v') :
    v'.req.rqState.write = v.req.rqState.write ∧
      (v'.req.rqState.inActLog = true ↔ v.req.rqState.inActLog = true ∨ InActLog [act]) ∧
      (v.req.rqState.localMask = true ∨ Submitted [act] → v'.req.rqState.localMask = true) := by
  cases act with
  | request env running act =>
      simp only [Volume.step] at hs
      obtain ⟨req, hstep, rfl⟩ := Option.map_eq_some_iff.1 hs
      rw [(endioMark_same v env running act).2] at hstep
      obtain ⟨hw, ha, hl⟩ := step_bits hstep
      refine ⟨hw, ha.trans (or_congr_right ?_), fun h => hl (h.imp_right ?_)⟩
      · simp [InActLog, eq_comm]
      · rintro ⟨env', running', hmem⟩
        rw [List.mem_singleton] at hmem
        cases hmem
        rfl
  | markAhead env =>
      have hno : ¬ InActLog [.markAhead env] ∧ ¬ Submitted [.markAhead env] := by simp [InActLog, Submitted]
      simp only [Volume.step] at hs
      split at hs
      · cases hs
        rw [(sameVolume_effect env.disk v .setOutOfSync).2]
        exact ⟨rfl, by simp [hno.1], fun h => h.resolve_right hno.2⟩
      · cases hs
  | others bitmap =>
      have hno : ¬ InActLog [.others bitmap] ∧ ¬ Submitted [.others bitmap] := by simp [InActLog, Submitted]
      simp only [Volume.step] at hs
      split at hs
      · cases hs
        exact ⟨rfl, by simp [hno.1], fun h => h.resolve_right hno.2⟩
      · cases hs

theorem run_bits {acts : List VolumeAct} (hrun : run Volume.step v acts = some v') :
    v'.req.rqState.write = v.req.rqState.write ∧
      (v'.req.rqState.inActLog = true ↔ v.req.rqState.inActLog = true ∨ InActLog acts) ∧
      (v.req.rqState.localMask = true ∨ Submitted acts → v'.req.rqState.localMask = true) := by
  induction acts generalizing v with
  | nil =>
      simp only [run, Option.some.injEq] at hrun
      subst hrun
      exact ⟨rfl, by simp [InActLog], fun h => h.resolve_right (by simp [Submitted])⟩
  | cons act acts ih =>
      obtain ⟨t, ht, hrest⟩ := run_cons hrun
      obtain ⟨hw, ha, hl⟩ := volumeStep_bits ht
      obtain ⟨hw', ha', hl'⟩ := ih hrest
      refine ⟨hw'.trans hw, ?_, fun h => hl' ?_⟩
      · rw [ha', ha, or_assoc]
        refine or_congr_right ⟨fun h => ?_, fun h => ?_⟩
        · rcases h with ⟨env, running, h⟩ | ⟨env, running, h⟩
          · exact ⟨env, running, by simp [List.mem_singleton.1 h]⟩
          · exact ⟨env, running, List.mem_cons_of_mem _ h⟩
        · obtain ⟨env, running, h⟩ := h
          rcases List.mem_cons.1 h with h | h
          · exact .inl ⟨env, running, by simp [h]⟩
          · exact .inr ⟨env, running, h⟩
      · rcases h with h | ⟨env, running, h⟩
        · exact .inl (hl (.inl h))
        · rcases List.mem_cons.1 h with h | h
          · exact .inl (hl (.inr ⟨env, running, by simp [h]⟩))
          · exact .inr ⟨env, running, h⟩

/-- A write request, new on a device of any content. -/
structure NewWrite (v : Volume) : Prop where
  req : v.req = drbdReqNew .write
  fitting : Fitting v

theorem NewWrite.inv (h : NewWrite v) : VolumeInv v where
  fitting := h.fitting
  live _ e he := by simp [h.req, drbdReqNew] at he
  ended hf := by simp [h.req, drbdReqNew] at hf
  marked hf := by simp [h.req, drbdReqNew] at hf

/-- Its blocks were marked before its part of the activity log was given up. -/
def MarkedFirst (v : Volume) : Prop :=
  Marked v ∧ ∃ pre post, v.req.log = pre ++ .setOutOfSync :: post ∧ .alCompleteIo ∉ pre

theorem count_destroyEffects (env : Env) (s : RqState) (hw : s.write = true) :
    (destroyEffects env s).count .alCompleteIo
      = if s.inActLog = true ∧ .failed ≤ env.disk then 1 else 0 := by
  have hmarks : ∀ (a b : Bool), ((if a = true then [Effect.setOutOfSync] else [])
      ++ (if b = true then [Effect.setInSync] else [])).count .alCompleteIo = 0 := by decide
  simp only [destroyEffects, hw, if_true, List.count_append]
  have hzero : (if (s.postponed && !s.localMask && !s.netMask) = true then []
      else (if (!s.netOk || !s.localOk) = true then [Effect.setOutOfSync] else [])
        ++ (if (s.netOk && s.localOk && s.netSis) = true then [Effect.setInSync] else [])).count .alCompleteIo
      = 0 := by
    split
    · rfl
    · exact hmarks _ _
  rw [hzero]
  cases ha : s.inActLog with
  | true =>
      by_cases hd : Disk.failed ≤ env.disk
      · simp [hd]
      · simp [hd]
  | false => simp

theorem write_outcome_marked (v₀ v : Volume) (acts : List VolumeAct) (hnew : NewWrite v₀)
    (hrun : run Volume.step v₀ acts = some v) (hend : v.req.freed = true) :
    (Submitted acts → ¬ (v.req.rqState.localOk = true ∧ v.req.rqState.netOk = true) → .inconsistent ≤ v.disk →
      MarkedFirst v) ∧
    (InActLog acts → .failed ≤ v.disk → v.req.log.count .alCompleteIo = 1) ∧
    (¬ InActLog acts → v.req.log.count .alCompleteIo = 0) := by
  have hinv : VolumeInv v := run_preserves (fun hi hs => hi.step hs) hnew.inv hrun
  obtain ⟨hw, hact, hlocal⟩ := run_bits hrun
  rw [hnew.req] at hw hact hlocal
  have hw : v.req.rqState.write = true := hw
  obtain ⟨env, l, hdisk, hlog, hquiet⟩ := hinv.ended hend
  have hcount : v.req.log.count .alCompleteIo
      = if v.req.rqState.inActLog = true ∧ .failed ≤ v.disk then 1 else 0 := by
    have hnone : l.count .alCompleteIo = 0 := List.count_eq_zero.2 fun hmem => by
      have := hquiet _ hmem
      cases this
    rw [hlog, List.count_append, hnone, Nat.zero_add, count_destroyEffects env _ hw, hdisk]
  refine ⟨fun hsub hok hd => ?_, fun ha hd => ?_, fun ha => ?_⟩
  · have hl : v.req.rqState.localMask = true := hlocal (.inr hsub)
    have hfail : v.req.rqState.failed = true := by
      have hok' : (v.req.rqState.netOk && v.req.rqState.localOk) = false := by
        rw [← Bool.not_eq_true, Bool.and_eq_true]
        exact fun h => hok ⟨h.2, h.1⟩
      simp [RqState.failed, hw, hl, hok']
    refine ⟨hinv.marked hend hfail hd, ?_⟩
    obtain ⟨rest, hrest, -, -⟩ := destroyEffects_failed env hfail
    refine ⟨l, rest, by rw [hlog, hrest], fun hmem => ?_⟩
    have := hquiet _ hmem
    cases this
  · rw [hcount, if_pos ⟨hact.2 (.inr ha), hd⟩]
  · rw [hcount, if_neg]
    rintro ⟨hin, -⟩
    rcases hact.1 hin with h | h
    · cases h
    · exact ha h

/-- A new write of one block to a device of 16 MiB, everything in sync. -/
def oneBlock : Volume where
  req := drbdReqNew .write
  sector := 8
  size := 4096
  capacity := 32768
  bitmap := ⟨4096, 0, fun _ => 0, fun _ => false, fun _ => false⟩
  disk := .upToDate

theorem newWrite_oneBlock : NewWrite oneBlock :=
  ⟨rfl, ⟨by decide, rfl, by decide, by decide⟩⟩

/-- Steps of the request with the disk in a given state, under protocol C. -/
def withDisk (disk : Disk) (acts : List Act) : List VolumeAct :=
  acts.map (.request ⟨false, .c, disk⟩ false ·)

/-- The connection is lost before the peer acked. -/
def lostWrite : List VolumeAct :=
  withDisk .upToDate [.inActLog, .addToTransferLog, .event .toBeSent, .event .queueForNetWrite,
    .event .toBeSubmitted, .putSubmitter, .event .handedOverToNetwork, .event .connectionLostWhilePending,
    .event .completedOk]

theorem write_outcome_marked_lost :
    ∃ v, run Volume.step oneBlock lostWrite = some v ∧ MarkedFirst v ∧ v.req.log.count .alCompleteIo = 1 := by
  have hsome : (run Volume.step oneBlock lostWrite).map
      (fun v => (v.req.freed, v.req.rqState.netOk, v.disk)) = some (true, false, .upToDate) := by decide
  obtain ⟨v, hv, hval⟩ := Option.map_eq_some_iff.1 hsome
  simp only [Prod.mk.injEq] at hval
  obtain ⟨hend, hnet, hdisk⟩ := hval
  obtain ⟨hmark, hcount, -⟩ := write_outcome_marked oneBlock v lostWrite newWrite_oneBlock hv hend
  refine ⟨v, hv, hmark ⟨⟨false, .c, .upToDate⟩, false, by simp [lostWrite, withDisk]⟩ (fun h => ?_)
    (by rw [hdisk]; decide),
    hcount ⟨⟨false, .c, .upToDate⟩, false, by simp [lostWrite, withDisk]⟩ (by rw [hdisk]; decide)⟩
  rw [hnet] at h
  cases h.2

/-- The local write fails, and the disk with it. -/
def failedWrite : List VolumeAct :=
  withDisk .upToDate [.inActLog, .addToTransferLog, .event .toBeSubmitted, .putSubmitter]
    ++ withDisk .failed [.event .writeCompletedWithError]

theorem failed_disk_is_not_marked :
    ¬ ∀ (v₀ v : Volume) (acts : List VolumeAct), NewWrite v₀ → run Volume.step v₀ acts = some v →
      v.req.freed = true →
      (Submitted acts → ¬ (v.req.rqState.localOk = true ∧ v.req.rqState.netOk = true) → MarkedFirst v) ∧
        (v.req.log.count .alCompleteIo = 1 ↔ InActLog acts) := by
  intro hall
  have hsome : (run Volume.step oneBlock failedWrite).map
      (fun v => (v.req.freed, v.req.rqState.netOk, v.sector, v.size, v.bitmap.bit 1))
      = some (true, false, 8, 4096, false) := by decide
  obtain ⟨v, hv, hval⟩ := Option.map_eq_some_iff.1 hsome
  simp only [Prod.mk.injEq] at hval
  obtain ⟨hend, hnet, hsector, hsize, hclear⟩ := hval
  have hmark := ((hall oneBlock v failedWrite newWrite_oneBlock hv hend).1
    ⟨⟨false, .c, .upToDate⟩, false, by simp [failedWrite, withDisk]⟩ (fun h => by rw [hnet] at h; cases h.2)).1
  have hset := (hmark 1 (by rw [hsector, hsize]; decide)).2
  rw [hclear] at hset
  cases hset

end Drbd.Request
