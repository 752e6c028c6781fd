import Drbd.ActLog.Lemmas.Invariant
import Drbd.Lib.System

/-!
# Crash recovery

The replay of a crashed ring finds every active extent, as long as the counter never jumps on the ring
and a first transaction that tears is where the replayer expects it. When the size of the ring does not
divide 2^32, the counter jumps as it wraps, and the last transactions before that are walked past.
-/

namespace Drbd.ActLog

open Lru Lib

variable {d d' : Device} {first n : Nat} {h : Nat → AlBlock}

/-! ## Replaying a stretch -/

theorem CarriedAt.replayed {k i lo : Nat} (hc : CarriedAt d n h k i) (hlo : lo ≤ i) (hot : Nat → Nat) :
    (List.range' lo (n - lo)).foldl (fun hot j => replayBlock hot (h j)) hot k = d.lcNumber k := by
  have hlt := hc.lt
  -- induction over what follows transaction `i`
  have hlater : ∀ m, i + 1 + m ≤ n →
      (List.range' lo (i + 1 + m - lo)).foldl (fun hot j => replayBlock hot (h j)) hot k = d.lcNumber k := by
    intro m hm
    induction m with
    | zero =>
        rw [show i + 1 + 0 - lo = i - lo + 1 by omega, List.range'_1_concat, List.foldl_append,
          show lo + (i - lo) = i by omega]
        exact hc.here _
    | succ m ih =>
        rw [show i + 1 + (m + 1) - lo = i + 1 + m - lo + 1 by omega, List.range'_1_concat,
          List.foldl_append, show lo + (i + 1 + m - lo) = i + 1 + m by omega]
        rcases hc.later (i + 1 + m) (by omega) (by omega)
          ((List.range' lo (i + 1 + m - lo)).foldl (fun hot j => replayBlock hot (h j)) hot) with hsays | hkeeps
        · exact hsays
        · exact hkeeps.trans (ih (by omega))
  have := hlater (n - (i + 1)) (by omega)
  rwa [show i + 1 + (n - (i + 1)) = n by omega] at this

/-- A disk that shows all the transactions from `lo` on is enough, if every active slot is carried
there. -/
theorem recovers_of_shows {disk : Nat → AlBlock} (lo : Nat) (hnr : d.nrElements ≤ AL_EXTENTS_MAX)
    (hs : Shows (fun b => disk (alTrNumberToOnDiskSlot d.md b d.md.alSize4k)) d.md.alSize4k first lo n h)
    (hlt : lo < n)
    (hcarried : ∀ k < d.nrElements, d.lcNumber k ≠ LC_FREE → ∃ i, lo ≤ i ∧ CarriedAt d n h k i) :
    Recovers d disk := by
  obtain ⟨hvalid, hupdates, hold, hnew⟩ := scan_ends hs hlt
  have hwalk := walk_eq hs hlt fun _ => LC_FREE
  refine ⟨_, (List.range' lo (n - lo)).foldl (fun hot i => replayBlock hot (h i)) fun _ => LC_FREE, ?_,
    fun enr ⟨hne, k, hk, hnumber⟩ => ⟨hupdates, k, by omega, ?_⟩⟩
  · unfold replayAl84
    dsimp only at hwalk ⊢
    rw [if_neg (by omega), if_neg (by omega), hold, hnew, hwalk]
  · obtain ⟨i, hlo, hc⟩ := hcarried k hk (by rw [hnumber]; exact hne)
    exact (hc.replayed hlo _).trans hnumber

/-! ## The two kinds of crash -/

theorem Inv.carried_recent (hi : Inv d first n h) {k : Nat} (hk : k < d.nrElements)
    (hne : d.lcNumber k ≠ LC_FREE) : ∃ i, n + 1 - d.md.alSize4k ≤ i ∧ CarriedAt d n h k i := by
  obtain ⟨i, hc⟩ := hi.carried k hk hne
  have hchunks := chunks_lt d.md hi.extents
  have hrecent := hc.recent
  have hdue := due_pos (chunks d.nrElements) (d.alTrCycle / AL_CONTEXT_PER_TRANSACTION)
    (k / AL_CONTEXT_PER_TRANSACTION)
  have hlt := hc.lt
  exact ⟨i, by omega, hc⟩

theorem Layout.size_bounds (md : Layout) : 8 ≤ md.alSize4k ∧ md.alSize4k ≤ 2 ^ 31 := by
  have hlow : 64 / 8 ≤ md.alSize4k := md.lower
  have hup : md.alSize4k ≤ 16 * 1024 * 1024 / 4 := md.upper
  omega

/-- A fresh ring has no active extent to offer. -/
theorem Inv.not_active (hi : Inv d first 0 h) (enr : Nat) : ¬ Active d enr := by
  rintro ⟨hne, k, hk, hnumber⟩
  obtain ⟨i, hc⟩ := hi.carried k hk (by rw [hnumber]; exact hne)
  exact absurd hc.lt (Nat.not_lt_zero i)

theorem Inv.recovers_quiet (hi : Inv d first n h) : Recovers d d.disk := by
  obtain ⟨hlow, hup⟩ := d.md.size_bounds
  rcases Nat.eq_zero_or_pos n with rfl | hpos
  · have hinit : ∀ p < d.md.alSize4k, p ≠ d.md.alSize4k →
        d.disk (alTrNumberToOnDiskSlot d.md p d.md.alSize4k) = initializedBlock := by
      intro p hp _
      rcases hi.rest p hp with ⟨i, hlt, _⟩ | hinit
      · cases hlt
      · exact hinit
    obtain ⟨hvalid, hupdates⟩ := scan_fresh
      (fun b => d.disk (alTrNumberToOnDiskSlot d.md b d.md.alSize4k)) hinit (.inr (le_refl _))
    rw [if_neg (lt_irrefl _), Nat.sub_zero] at hvalid
    refine ⟨0, fun _ => LC_FREE, ?_, fun enr ha => absurd ha (hi.not_active enr)⟩
    unfold replayAl84
    dsimp only
    rw [hvalid, hupdates, if_neg (by omega), if_pos rfl, if_pos rfl]
  · refine recovers_of_shows (n - d.md.alSize4k) (hi.extents.trans (drbdAlExtentsMax_le _))
      ⟨by omega, hup, fun i hlo hlt => hi.ring i hlt (by omega), fun i _ hlt => hi.update i hlt,
        fun p hp _ hne => ?_⟩ (by omega) fun k hk hne => ?_
    · rcases hi.rest p hp with ⟨i, hlt, hge, hat⟩ | hinit
      · exact ⟨i, by omega, hlt, hat.symm⟩
      · exact absurd (congrArg AlBlock.transactionType hinit) hne
    · obtain ⟨i, hrecent, hc⟩ := hi.carried_recent hk hne
      exact ⟨i, by omega, hc⟩

theorem Inv.recovers_torn (hi : Inv d first n h) (hplace : InPlace d)
    (hfirst : Fresh d → d.alTrNumber % d.md.alSize4k = 0) {junk : AlBlock} (hjunk : junk.isValid = false) :
    Recovers d (Function.update d.disk (alTrNumberToOnDiskSector d.md d.alTrNumber / 8) junk) := by
  obtain ⟨hlow, hup⟩ := d.md.size_bounds
  obtain ⟨_, hpos⟩ := hi.position hplace
  have hview := fun p (hp : p < d.md.alSize4k) => update_view d.md d.disk junk d.alTrNumber hp
  rw [hpos] at hview
  generalize Function.update d.disk (alTrNumberToOnDiskSector d.md d.alTrNumber / 8) junk = disk at hview ⊢
  rcases Nat.eq_zero_or_pos n with rfl | hpos'
  · -- nothing but the torn block, which is the one at position zero
    have hzero : (first + 0) % d.md.alSize4k = 0 := hpos ▸ hfirst (hi.fresh_iff.2 rfl)
    rw [hzero] at hview
    have hjunk0 : (disk (alTrNumberToOnDiskSlot d.md 0 d.md.alSize4k)).isValid = false := by
      rw [hview 0 (by omega), if_pos rfl, hjunk]
    have hinit : ∀ p < d.md.alSize4k, p ≠ 0 →
        disk (alTrNumberToOnDiskSlot d.md p d.md.alSize4k) = initializedBlock := by
      intro p hp hne
      rw [hview p hp, if_neg hne]
      rcases hi.rest p hp with ⟨i, hlt, _⟩ | hinit
      · cases hlt
      · exact hinit
    obtain ⟨hvalid, hupdates⟩ := scan_fresh
      (fun b => disk (alTrNumberToOnDiskSlot d.md b d.md.alSize4k)) hinit (.inl hjunk0)
    rw [if_pos (by omega)] at hvalid
    refine ⟨0, fun _ => LC_FREE, ?_, fun enr ha => absurd ha (hi.not_active enr)⟩
    unfold replayAl84
    dsimp only
    rw [hvalid, hupdates, if_neg (by omega), if_pos rfl, if_neg (by omega), if_pos ⟨hjunk0, rfl⟩]
  · refine recovers_of_shows (n + 1 - d.md.alSize4k) (hi.extents.trans (drbdAlExtentsMax_le _))
      ⟨by omega, hup, fun i hlo hlt => ?_, fun i _ hlt => hi.update i hlt, fun p hp hgood hne => ?_⟩
      (by omega) fun k hk hne => hi.carried_recent hk hne
    · rw [hview _ (Nat.mod_lt _ (by omega)),
        if_neg fun hsame => absurd (ring_inj (by omega) (by omega) hsame) (by omega)]
      exact hi.ring i hlt (by omega)
    · rw [hview p hp] at hgood hne
      by_cases heq : p = (first + n) % d.md.alSize4k
      · rw [if_pos heq, hjunk] at hgood
        cases hgood
      · rw [if_neg heq] at hne
        rcases hi.rest p hp with ⟨i, hlt, hge, hat⟩ | hinit
        · refine ⟨i, ?_, hlt, hat.symm⟩
          by_contra hlap
          apply heq
          rw [← hat, show first + n = first + i + d.md.alSize4k by omega, Nat.add_mod_right]
        · exact absurd (congrArg AlBlock.transactionType hinit) hne

/-- In every run and at every crash that keep to the ring, the replay finds all active extents. -/
theorem hot_extents_recovered (md : Layout) (alExtents : Nat) (es : List Event)
    (hc : Meets step Keeps (boot md alExtents) es) (hrun : run step (boot md alExtents) es = some d)
    (crash : Crash) (hcrash : crash.Keeps d) {disk : Nat → AlBlock} (hdisk : crash.disk d = some disk) :
    Recovers d disk := by
  have hboot : ∃ first n h, Inv (boot md alExtents) first n h :=
    ⟨0, 0, _, .attached md alExtents rfl (by decide) (by decide) fun _ => initializedBlock⟩
  obtain ⟨first, n, h, hi⟩ := run_invariant (I := fun d => ∃ first n h, Inv d first n h)
    (fun ⟨_, _, _, hi⟩ hk hs => hi.step hk hs) hboot hc hrun
  cases crash with
  | quiet =>
      cases hdisk
      exact hi.recovers_quiet
  | torn toBeChanged junk =>
      simp only [Crash.disk] at hdisk
      split at hdisk
      · rename_i htorn
        cases hdisk
        exact hi.recovers_torn hcrash.1 hcrash.2 htorn.2
      · cases hdisk

/-! ## One transaction kept, and one lost -/

def committed (d : Device) (toBeChanged : List (Nat × Nat)) : Device :=
  { alWriteTransaction d toBeChanged with lcNumber := lcCommitted d.lcNumber toBeChanged }

theorem step_of_pending {toBeChanged : List (Nat × Nat)} (hp : Pending d toBeChanged) :
    step d (.beginIoCommit toBeChanged) = some (committed d toBeChanged) :=
  if_pos hp

def eightBlocks : Layout := ⟨1, 8, by decide, by decide⟩

/-- Extent 5 is active when the second transaction tears. -/
theorem hot_extents_recovered_torn :
    run step (boot eightBlocks 1237) [.beginIoCommit [(0, 5)]]
        = some (committed (boot eightBlocks 1237) [(0, 5)]) ∧
      Active (committed (boot eightBlocks 1237) [(0, 5)]) 5 ∧
      ∃ disk, Crash.disk (committed (boot eightBlocks 1237) [(0, 5)])
          (.torn [(1, 6)] { initializedBlock with isValid := false }) = some disk ∧
        Recovers (committed (boot eightBlocks 1237) [(0, 5)]) disk := by
  have hrun : run step (boot eightBlocks 1237) [.beginIoCommit [(0, 5)]]
      = some (committed (boot eightBlocks 1237) [(0, 5)]) := by
    simp only [run]
    rw [step_of_pending (by decide)]
    rfl
  refine ⟨hrun, ⟨by decide, 0, by decide, rfl⟩, _, rfl, ?_⟩
  refine hot_extents_recovered eightBlocks 1237 [.beginIoCommit [(0, 5)]] ⟨fun _ => .inl rfl, fun _ _ => trivial⟩
    hrun (.torn [(1, 6)] { initializedBlock with isValid := false }) ⟨fun _ => .inl rfl, fun hfresh => ?_⟩ rfl
  exact absurd (hfresh 0 (by decide)) (by decide)

/-- An extent that is in no block the walk passes is not hot. -/
theorem replayBlock_ne {blk : AlBlock} {hot : Nat → Nat} {enr : Nat} (hcontext : ∀ i, blk.context i ≠ enr)
    (hupdate : ∀ i, blk.updateExtentNr i ≠ enr) (hhot : ∀ k, hot k ≠ enr) (k : Nat) :
    replayBlock hot blk k ≠ enr := by
  have hput : ∀ {f : Nat → Nat} {slot x}, (∀ k, f k ≠ enr) → x ≠ enr →
      ∀ k, Function.update f slot x k ≠ enr := by
    intro f slot x hf hx k
    rw [Function.update_apply]
    split
    · exact hx
    · exact hf k
  have hcontexts : ∀ l : List Nat, ∀ f : Nat → Nat, (∀ k, f k ≠ enr) →
      ∀ k, l.foldl (replayContext blk) f k ≠ enr := by
    intro l
    induction l with
    | nil => exact fun f hf => hf
    | cons i l ih =>
        refine fun f hf => ih _ ?_
        unfold replayContext
        split
        · exact hf
        · split
          · exact hf
          · exact hput hf (hcontext i)
  have hupdates : ∀ l : List Nat, ∀ f : Nat → Nat, (∀ k, f k ≠ enr) →
      ∀ k, l.foldl (replayUpdate blk) f k ≠ enr := by
    intro l
    induction l with
    | nil => exact fun f hf => hf
    | cons i l ih =>
        refine fun f hf => ih _ ?_
        unfold replayUpdate
        split
        · exact hf
        · split
          · exact hf
          · exact hput hf (hupdate i)
  unfold replayBlock
  split
  · exact hhot k
  · exact hupdates _ _ (hcontexts _ _ hhot) k

/-- Transactions that keep the context at slot zero bring the counter anywhere. -/
theorem run_replicate (m : Nat) (d : Device) (hcycle : d.alTrCycle = 0) (hnr : d.nrElements = 7)
    (hnumber : d.alTrNumber < 2 ^ 32) :
    ∃ d', run step d (List.replicate m (.beginIoCommit [(0, 1)])) = some d' ∧ d'.alTrCycle = 0 ∧
      d'.alTrNumber = (d.alTrNumber + m) % 2 ^ 32 := by
  induction m generalizing d with
  | zero => exact ⟨d, rfl, hcycle, (Nat.mod_eq_of_lt hnumber).symm⟩
  | succ m ih =>
      have hp : Pending d [(0, 1)] := by
        refine ⟨by decide, by decide, fun c hc => ?_⟩
        rw [List.mem_singleton.1 hc, hnr]
        decide
      have hnext : (committed d [(0, 1)]).alTrCycle = 0 := by
        show nextCycle d = 0
        unfold nextCycle
        rw [hcycle, hnr]
        rfl
      obtain ⟨d', hrun, hcycle', hnumber'⟩ := ih (committed d [(0, 1)]) hnext hnr
        (Nat.mod_lt _ (by decide))
      refine ⟨d', ?_, hcycle', ?_⟩
      · rw [List.replicate_succ]
        simp only [run, step_of_pending hp, Option.bind_some]
        exact hrun
      · rw [hnumber']
        show ((d.alTrNumber + 1) % 2 ^ 32 + m) % 2 ^ 32 = _
        rw [Nat.mod_add_mod]
        congr 1
        omega

def nineBlocks : Layout := ⟨3, 3, by decide, by decide⟩

/-- The ring after number 2^32 - 1 went to position 3 and made extent 7 active. -/
def beforeWrap : Device :=
  committed (committed (committed (committed (committed (attached (2 ^ 32 - 5) 0 nineBlocks 920)
    [(2, 10)]) [(2, 11)]) [(2, 12)]) [(2, 13)]) [(0, 7)]

theorem run_beforeWrap : run step (attached (2 ^ 32 - 5) 0 nineBlocks 920)
    [.beginIoCommit [(2, 10)], .beginIoCommit [(2, 11)], .beginIoCommit [(2, 12)], .beginIoCommit [(2, 13)],
      .beginIoCommit [(0, 7)], .beginIoCommit [(1, 8)]] = some (committed beforeWrap [(1, 8)]) := by
  simp only [run]
  rw [step_of_pending (by decide), Option.bind_some, step_of_pending (by decide), Option.bind_some,
    step_of_pending (by decide), Option.bind_some, step_of_pending (by decide), Option.bind_some,
    step_of_pending (by decide), Option.bind_some, step_of_pending (by decide), Option.bind_some]
  rfl

/-- The scan of the ring after number 0 went to position 0. -/
theorem scan_afterWrap :
    scan (fun b => (committed beforeWrap [(1, 8)]).disk (alTrNumberToOnDiskSlot nineBlocks b 9)) 9
      = ⟨9, 5, ⟨8, 2 ^ 32 - 5⟩, ⟨0, 0⟩⟩ := by
  decide

theorem not_recovers_afterWrap :
    ¬ Recovers (committed beforeWrap [(1, 8)]) (committed beforeWrap [(1, 8)]).disk := by
  rintro ⟨n, hot, hreplay, hall⟩
  obtain ⟨_, slot, _, hslot⟩ := hall 7 ⟨by decide, 0, by decide, rfl⟩
  have holdest : (committed beforeWrap [(1, 8)]).disk (alTrNumberToOnDiskSlot nineBlocks (8 % 9) 9)
      = fillTransaction (attached (2 ^ 32 - 5) 0 nineBlocks 920) [(2, 10)] := rfl
  have hoverwritten : (committed beforeWrap [(1, 8)]).disk (alTrNumberToOnDiskSlot nineBlocks (9 % 9) 9)
      = fillTransaction beforeWrap [(1, 8)] := rfl
  have hhot : hot = replayBlock (replayBlock (fun _ => LC_FREE)
      (fillTransaction (attached (2 ^ 32 - 5) 0 nineBlocks 920) [(2, 10)]))
      (fillTransaction beforeWrap [(1, 8)]) := by
    unfold replayAl84 at hreplay
    dsimp only at hreplay
    rw [show (committed beforeWrap [(1, 8)]).md = nineBlocks from rfl,
      show nineBlocks.alSize4k = 9 from rfl, scan_afterWrap] at hreplay
    rw [if_neg (by decide), if_neg (by decide)] at hreplay
    dsimp only at hreplay
    rw [show List.range' 8 ((if 0 < 8 then 0 + 9 else 0) + 1 - 8) = [8, 9] from rfl, List.foldl_cons,
      List.foldl_cons, List.foldl_nil] at hreplay
    cases hreplay
    rw [hoverwritten, holdest]
  have hfree : ∀ i, beforeWrap.lcNumber (919 + i) = LC_FREE := by
    intro i
    simp only [beforeWrap, committed, lcCommitted, List.foldl_cons, List.foldl_nil]
    rw [Function.update_of_ne (by omega), Function.update_of_ne (by omega), Function.update_of_ne (by omega),
      Function.update_of_ne (by omega), Function.update_of_ne (by omega)]
    rfl
  refine absurd hslot (hhot ▸ replayBlock_ne (fun i => ?_) (fun i => ?_) (replayBlock_ne (fun i => ?_)
    (fun i => ?_) fun _ => by decide) slot)
  · simp only [fillTransaction]
    split
    · rw [show beforeWrap.alTrCycle = 919 from rfl, hfree]
      decide
    · decide
  · cases i with
    | zero => decide
    | succ i => exact show LC_FREE ≠ 7 by decide
  · simp only [fillTransaction]
    split
    · exact show LC_FREE ≠ 7 by decide
    · decide
  · cases i with
    | zero => decide
    | succ i => exact show LC_FREE ≠ 7 by decide

/-- With nine blocks, number 0 goes to position 0, next to the block of number 2^32 - 5 at position 8:
the walk from there misses the four numbers between them. -/
theorem wrap_loses_extent :
    ∃ d, run step (boot nineBlocks 7) (List.replicate (2 ^ 32 - 5) (.beginIoCommit [(0, 1)]) ++
        [.attach nineBlocks 920, .beginIoCommit [(2, 10)], .beginIoCommit [(2, 11)],
          .beginIoCommit [(2, 12)], .beginIoCommit [(2, 13)], .beginIoCommit [(0, 7)],
          .beginIoCommit [(1, 8)]]) = some d ∧
      Crash.disk d .quiet = some d.disk ∧ ¬ Recovers d d.disk := by
  refine ⟨committed beforeWrap [(1, 8)], ?_, rfl, not_recovers_afterWrap⟩
  obtain ⟨d, hrun, hcycle, hnumber⟩ := run_replicate (2 ^ 32 - 5) (boot nineBlocks 7) rfl rfl (by decide)
  rw [run_append, hrun, Option.bind_some]
  have hstart : (boot nineBlocks 7).alTrNumber + (2 ^ 32 - 5) = 2 ^ 32 - 5 := Nat.zero_add _
  rw [hstart, Nat.mod_eq_of_lt (by decide)] at hnumber
  rw [show run step d (.attach nineBlocks 920 :: _)
    = run step (attached d.alTrNumber d.alTrCycle nineBlocks 920) _ from rfl, hcycle, hnumber]
  exact run_beforeWrap

end Drbd.ActLog
