import Drbd.Lib.Sweep
import Drbd.ResyncRequest.Theorems
import Mathlib.Data.Nat.Log

/-!
# One pass over the bitmap

Every loop that makes requests is a sweep over the bitmap, in as many calls as it may take.
-/

namespace Drbd.ResyncRequest

open Bitmap Lib

variable {capacity maxBioSize n bit last : Nat}

/-! ## Requests -/

def Request.finish (r : Request) : Nat := r.sector + r.size >>> 9

/-- The number of blocks, the last one perhaps cut short. -/
def Request.blocks (r : Request) : Nat := (r.size + (BM_BLOCK_SIZE - 1)) / BM_BLOCK_SIZE

/-- A sector of the block is in the request. -/
def Request.Covers (r : Request) (x : Nat) : Prop :=
  ∃ s, r.sector ≤ s ∧ s < r.finish ∧ bmSectToBit s = x

theorem requestOf_finish (hle : bit ≤ last) (hin : 8 * last < capacity) :
    8 * last < (requestOf capacity bit last).finish ∧ (requestOf capacity bit last).finish ≤ 8 * last + 8 ∧
      (requestOf capacity bit last).finish ≤ capacity := by
  simp only [Request.finish, requestOf, clip, BM_BLOCK_SIZE, bmBitToSect_eq, Nat.shiftRight_eq_div_pow,
    Nat.shiftLeft_eq]
  split <;> omega

theorem requestOf_size (hle : bit ≤ last) (hin : 8 * last < capacity) :
    0 < (requestOf capacity bit last).size ∧
      (requestOf capacity bit last).size ≤ BM_BLOCK_SIZE * (last - bit + 1) := by
  simp only [requestOf, clip, BM_BLOCK_SIZE, bmBitToSect_eq, Nat.shiftRight_eq_div_pow, Nat.shiftLeft_eq]
  split <;> omega

theorem requestOf_blocks (hle : bit ≤ last) (hin : 8 * last < capacity) :
    (requestOf capacity bit last).blocks = last - bit + 1 := by
  simp only [Request.blocks, requestOf, clip, BM_BLOCK_SIZE, bmBitToSect_eq, Nat.shiftRight_eq_div_pow,
    Nat.shiftLeft_eq]
  split <;> omega

theorem requestOf_covers {x : Nat} (hle : bit ≤ last) (hin : 8 * last < capacity) :
    (requestOf capacity bit last).Covers x ↔ bit ≤ x ∧ x ≤ last := by
  obtain ⟨hlow, hhigh, _⟩ := requestOf_finish hle hin
  have hsector : (requestOf capacity bit last).sector = 8 * bit := bmBitToSect_eq bit
  unfold Request.Covers
  simp only [hsector, bmSectToBit, Nat.shiftRight_eq_div_pow]
  constructor
  · rintro ⟨s, hs, hlt, rfl⟩
    omega
  · rintro ⟨hx, hxlast⟩
    exact ⟨8 * x, by omega, by omega, by omega⟩

/-- What is true of the requests of a pass, whatever happens to the bitmap: they go up without meeting, they
fit, and each was built in a round of its own from bits that its tests have seen set. -/
structure InOrder {ρ : Type} (tested : ρ → Nat → Bool) (capacity maxBioSize : Nat) (rounds : List ρ)
    (requests : List Request) : Prop where
  ordered : requests.Pairwise fun r r' => r.finish ≤ r'.sector
  apart : requests.Pairwise fun r r' => ∀ x, ¬ (r.Covers x ∧ r'.Covers x)
  nonempty : ∀ r ∈ requests, 0 < r.size
  short : ∀ r ∈ requests, r.size ≤ maxBioSize
  inside : ∀ r ∈ requests, r.finish ≤ capacity
  built : ∃ built, built.Sublist rounds ∧
    List.Forall₂ (fun (r : Request) round => ∀ x, r.Covers x → tested round x = true) requests built

/-- The intervals of a pass: inside the bitmap and not too long. -/
def Fits (n maxBioSize first last : Nat) : Prop := last < n ∧ BM_BLOCK_SIZE * (last - first + 1) ≤ maxBioSize

def requestsOf (capacity : Nat) (taken : List (Nat × Nat)) : List Request :=
  taken.map fun i => requestOf capacity i.1 i.2

section

variable {ρ : Type} {found tested : ρ → Nat → Bool} {P : Nat → Nat → Prop} {lo hi : Nat} {rounds : List ρ}
  {taken : List (Nat × Nat)}

theorem inOrder_of_sweep (h : Sweep found tested P lo rounds taken hi) (hcap : n ≤ (capacity + 7) / 8)
    (hp : ∀ first last, P first last → Fits n maxBioSize first last) :
    InOrder tested capacity maxBioSize rounds (requestsOf capacity taken) := by
  have hin : ∀ i ∈ taken, i.1 ≤ i.2 ∧ 8 * i.2 < capacity ∧ Fits n maxBioSize i.1 i.2 := fun i hi => by
    obtain ⟨_, hle, _, hpi⟩ := h.inside i hi
    have hlt := (hp _ _ hpi).1
    exact ⟨hle, by omega, hp _ _ hpi⟩
  have hpair := List.Pairwise.and_mem.1 h.ordered
  constructor
  · refine List.pairwise_map.2 (hpair.imp fun {i j} ⟨hi, hj, hlt⟩ => ?_)
    have hsector : (requestOf capacity j.1 j.2).sector = 8 * j.1 := bmBitToSect_eq j.1
    have := (requestOf_finish (hin i hi).1 (hin i hi).2.1).2.1
    omega
  · refine List.pairwise_map.2 (hpair.imp fun {i j} ⟨hi, hj, hlt⟩ x ⟨hx, hx'⟩ => ?_)
    have := (requestOf_covers (hin i hi).1 (hin i hi).2.1).1 hx
    have := (requestOf_covers (hin j hj).1 (hin j hj).2.1).1 hx'
    omega
  · intro r hr
    obtain ⟨i, hi, rfl⟩ := List.mem_map.1 hr
    exact (requestOf_size (hin i hi).1 (hin i hi).2.1).1
  · intro r hr
    obtain ⟨i, hi, rfl⟩ := List.mem_map.1 hr
    exact (requestOf_size (hin i hi).1 (hin i hi).2.1).2.trans (hin i hi).2.2.2
  · intro r hr
    obtain ⟨i, hi, rfl⟩ := List.mem_map.1 hr
    exact (requestOf_finish (hin i hi).1 (hin i hi).2.1).2.2
  · obtain ⟨built, hsub, hall⟩ := h.built
    refine ⟨built, hsub, List.forall₂_map_left_iff.2 ?_⟩
    refine ((List.forall₂_and_left taken built).2 ⟨fun i (hi : i ∈ taken) => hi, hall⟩).imp ?_
    intro i round ⟨hi, hset⟩ x hx
    obtain ⟨hfirst, hlast⟩ := (requestOf_covers (hin i hi).1 (hin i hi).2.1).1 hx
    exact hset x hfirst hlast

theorem covers_of_taken {i : Nat × Nat} {x : Nat} (hi : i ∈ taken) (hx : i.1 ≤ x ∧ x ≤ i.2)
    (hin : 8 * i.2 < capacity) : ∃ r ∈ requestsOf capacity taken, r.Covers x :=
  ⟨_, List.mem_map_of_mem hi, (requestOf_covers (hx.1.trans hx.2) hin).2 hx⟩

end

/-! ## `make_resync_request` -/

/-- The first bit of a request is a multiple of the least power of two that is not below its length. -/
def Aligned (first last : Nat) : Prop := 2 ^ Nat.clog 2 (last - first + 1) ∣ first

theorem mergeResync_aligned (b : DrbdBitmap) (maxBioSize number : Nat) {first bit : Nat} (align : Nat)
    (hle : first ≤ bit) (hfits : Fits b.bmBits maxBioSize first bit) (halign : bit - first + 1 < 2 ^ align)
    (haligned : Aligned first bit) (hset : ∀ x, first ≤ x → x ≤ bit → b.bit x = true) :
    ∃ last, mergeResync b maxBioSize (bmBitToSect first) number bit (BM_BLOCK_SIZE * (bit - first + 1)) align
        = (last, BM_BLOCK_SIZE * (last - first + 1)) ∧
      first ≤ last ∧ Fits b.bmBits maxBioSize first last ∧ Aligned first last ∧
      ∀ x, first ≤ x → x ≤ last → b.bit x = true := by
  have hstop : ∃ last, (bit, BM_BLOCK_SIZE * (bit - first + 1)) = (last, BM_BLOCK_SIZE * (last - first + 1)) ∧
      first ≤ last ∧ Fits b.bmBits maxBioSize first last ∧ Aligned first last ∧
      ∀ x, first ≤ x → x ≤ last → b.bit x = true :=
    ⟨bit, rfl, hle, hfits, haligned, hset⟩
  induction number generalizing bit align with
  | zero => exact hstop
  | succ number ih =>
      unfold mergeResync
      split
      · exact hstop
      rename_i hmax
      split
      · exact hstop
      rename_i hsector
      split
      · exact hstop
      split
      · exact hstop
      rename_i htest
      obtain ⟨hin, hbit⟩ := isSet_iff.1 (not_not.1 htest)
      have hsize : BM_BLOCK_SIZE * (bit - first + 1) + BM_BLOCK_SIZE = BM_BLOCK_SIZE * (bit + 1 - first + 1) := by
        rw [show bit + 1 - first + 1 = bit - first + 1 + 1 by omega]
        rfl
      -- the first bit has passed the test for the longer request
      have hdvd : 2 ^ align ∣ first := by
        rw [not_not, bmBitToSect_eq, Nat.one_shiftLeft, Nat.and_two_pow_sub_one_eq_mod, Nat.pow_add] at hsector
        exact Nat.dvd_of_mul_dvd_mul_left (show 0 < 8 by omega)
          (by rw [Nat.mul_comm 8 (2 ^ align)]; exact Nat.dvd_of_mod_eq_zero hsector)
      have haligned' : Aligned first (bit + 1) := by
        refine (Nat.pow_dvd_pow 2 ?_).trans hdvd
        exact Nat.clog_le_of_le_pow (by omega)
      have hset' : ∀ x, first ≤ x → x ≤ bit + 1 → b.bit x = true := fun x h1 h2 => by
        rcases Nat.eq_or_lt_of_le h2 with rfl | h2
        · exact hbit
        · exact hset x h1 (by omega)
      have hfits' : Fits b.bmBits maxBioSize first (bit + 1) := ⟨hin, by omega⟩
      dsimp only
      rw [hsize]
      refine ih _ (by omega) hfits' ?_ haligned' hset' ⟨bit + 1, rfl, by omega, hfits', haligned', hset'⟩
      split
      · rw [Nat.pow_succ]
        omega
      · rename_i hshort
        rw [Nat.shiftLeft_eq, BM_BLOCK_SIZE] at hshort
        omega

theorem tested_isClear {b : DrbdBitmap} (hlt : bit < b.bmBits) (htest : drbdBmTestBit b bit = .isClear) :
    b.bit bit = false := by
  by_contra hset
  rw [isSet_iff.2 ⟨hlt, by simpa using hset⟩] at htest
  cases htest

/-- The calls from `fo` on are a sweep as far as `hi`. -/
structure ResyncSweep (n capacity maxBioSize fo : Nat) (rounds : List (ResyncRound n)) (res : Result)
    (taken : List (Nat × Nat)) (hi : Nat) : Prop where
  sweep : Sweep (fun r : ResyncRound n => r.found.bit) (fun r => r.tested.bit)
    (fun first last => Fits n maxBioSize first last ∧ Aligned first last) fo rounds taken hi
  requests : res.requests = requestsOf capacity taken
  bound : hi ≤ n
  position : res.stop ≠ .error → res.bmResyncFo = hi
  done : res.stop = .done → hi = n

theorem makeResyncRequest_sweep (capacity : Nat) (hmax : BM_BLOCK_SIZE ≤ maxBioSize) (number : Nat) (again : Bool)
    (rounds : List (ResyncRound n)) {fo : Nat} (i : Nat) (hfo : fo ≤ n) :
    ∃ taken hi, ResyncSweep n capacity maxBioSize fo rounds
      (makeResyncRequest capacity maxBioSize number again rounds fo i) taken hi := by
  induction rounds generalizing again fo i with
  | nil => exact ⟨[], fo, .stop, rfl, hfo, fun _ => rfl, fun h => by cases h⟩
  | cons r rounds ih =>
      unfold makeResyncRequest
      split
      · refine ⟨[], fo, .stop, rfl, hfo, fun _ => rfl, fun hdone => ?_⟩
        rw [← r.found.bits]
        by_cases hend : r.found.bmBits ≤ fo
        · have := r.found.bits
          omega
        · rw [if_neg hend] at hdone
          cases hdone
      split
      · exact ⟨[], fo, .stop, rfl, hfo, fun _ => rfl, fun h => by cases h⟩
      split
      · rename_i hfind
        have hclear := bmFindNext_none hfind
        rw [r.found.bits] at hclear ⊢
        exact ⟨[], _, .skip hfo (fun x h1 h2 => .inl (hclear x h1 h2)) .stop, rfl, le_refl _, fun _ => rfl,
          fun _ => rfl⟩
      rename_i bit hfind
      have hnext := bmFindNext_some hfind
      have hlt := hnext.lt
      rw [r.found.bits] at hlt
      dsimp only
      split
      · exact ⟨[], bit, .skip hnext.ge (fun x h1 h2 => .inl (hnext.least x h1 h2)) .stop, rfl, by omega,
          fun _ => rfl, fun h => by cases h⟩
      split
      · rename_i hclear
        obtain ⟨taken, hi, h⟩ := ih true i hlt
        refine ⟨taken, hi, .skip (by have := hnext.ge; omega) (fun x h1 h2 => ?_) h.sweep, h.requests, h.bound,
          h.position, h.done⟩
        rcases Nat.eq_or_lt_of_le (show x ≤ bit by omega) with rfl | hx
        · exact .inr (tested_isClear (by rw [r.tested.bits]; exact hlt) hclear)
        · exact .inl (hnext.least x h1 hx)
      · rename_i htest
        have hset := (isSet_of_find hfind htest).2
        have hone : ∀ x, bit ≤ x → x ≤ bit → r.tested.bit x = true := fun x h1 h2 => by
          rw [show x = bit by omega]
          exact hset
        obtain ⟨last, hmerge, hle, hfits, haligned, hall⟩ := mergeResync_aligned r.tested.toDrbdBitmap maxBioSize
          (number - i) 1 (le_refl bit)
          ⟨by rw [r.tested.bits]; exact hlt, by simpa using hmax⟩ (by simp) (by simp [Aligned]) hone
        rw [Nat.sub_self, Nat.zero_add, Nat.mul_one] at hmerge
        rw [r.tested.bits] at hfits
        have htake : ∀ {taken hi}, ResyncSweep n capacity maxBioSize (last + 1) rounds
            (makeResyncRequest capacity maxBioSize number false rounds (last + 1) (i + (last - bit) + 1)) taken hi →
            Sweep (fun r : ResyncRound n => r.found.bit) (fun r => r.tested.bit)
              (fun first last => Fits n maxBioSize first last ∧ Aligned first last) fo
              (r :: rounds) ((bit, last) :: taken) hi :=
          fun h => .take hnext.ge hle (fun x h1 h2 => hnext.least x h1 h2) hall ⟨hfits, haligned⟩ h.sweep
        rw [hmerge]
        dsimp only
        rw [next_start hle]
        split
        · obtain ⟨taken, hi, h⟩ := ih false (i + (last - bit) + 1) hfits.1
          exact ⟨(bit, last) :: taken, hi, htake h, by simp only [Result.cons, h.requests]; rfl, h.bound, h.position,
            h.done⟩
        · refine ⟨[], bit, .skip hnext.ge (fun x h1 h2 => .inl (hnext.least x h1 h2)) .stop, rfl, by omega,
            fun _ => ?_, fun h => by cases h⟩
          simp only [bmSectToBit, bmBitToSect_eq, Nat.shiftRight_eq_div_pow]
          omega
        · exact ⟨[], fo, .stop, rfl, hfo, fun h => absurd rfl h, fun h => by cases h⟩

theorem resyncTurn_sweep (capacity : Nat) (hmax : BM_BLOCK_SIZE ≤ maxBioSize) (t : ResyncTurn n) {fo : Nat}
    (hfo : fo ≤ n) :
    ∃ taken hi, ResyncSweep n capacity maxBioSize fo t.rounds (t.run capacity maxBioSize fo) taken hi := by
  unfold ResyncTurn.run
  split
  · exact ⟨[], fo, .stop, rfl, hfo, fun _ => rfl, nofun⟩
  · exact makeResyncRequest_sweep capacity hmax t.number false t.rounds 0 hfo

/-- Several calls are one sweep. -/
theorem resyncPass_sweep (capacity : Nat) (hmax : BM_BLOCK_SIZE ≤ maxBioSize) (turns : List (ResyncTurn n)) {fo : Nat}
    (hfo : fo ≤ n) :
    ∃ taken hi, ResyncSweep n capacity maxBioSize fo (turns.flatMap ResyncTurn.rounds)
      (resyncPass capacity maxBioSize turns fo) taken hi := by
  induction turns generalizing fo with
  | nil => exact ⟨[], fo, .stop, rfl, hfo, fun _ => rfl, nofun⟩
  | cons t turns ih =>
      obtain ⟨taken, mid, h⟩ := resyncTurn_sweep capacity hmax t hfo
      unfold resyncPass
      dsimp only
      rw [List.flatMap_cons]
      split
      · rename_i hstop
        have hmid := h.position (by rw [hstop]; decide)
        obtain ⟨taken', hi, h'⟩ := ih h.bound
        rw [hmid]
        refine ⟨taken ++ taken', hi, h.sweep.rest h'.sweep, ?_, h'.bound, h'.position, h'.done⟩
        simp only [h.requests, h'.requests, requestsOf, List.map_append]
      · refine ⟨taken, mid, ?_, h.requests, h.bound, h.position, h.done⟩
        rw [← List.append_nil taken]
        exact h.sweep.rest .stop

/-- The bitmaps that searches and tests have seen, in the order of time. -/
def history (rounds : List (ResyncRound n)) : List (Nat → Bool) :=
  rounds.flatMap fun r => [r.found.bit, r.tested.bit]

def OnlyCleared (bitmaps : List (Nat → Bool)) : Prop :=
  bitmaps.Pairwise fun b b' => ∀ x, b' x = true → b x = true

theorem OnlyCleared.throughout {rounds : List (ResyncRound n)} {b : Nat → Bool} {x : Nat}
    (h : OnlyCleared (history rounds ++ [b])) (hset : b x = true) :
    ∀ r ∈ rounds, r.found.bit x = true ∧ r.tested.bit x = true := by
  intro r hr
  have hbefore : ∀ b' ∈ history rounds, b' x = true := fun b' hb' =>
    (List.pairwise_append.1 h).2.2 b' hb' b (List.mem_singleton_self b) x hset
  exact ⟨hbefore _ (List.mem_flatMap.2 ⟨r, hr, List.mem_cons_self⟩),
    hbefore _ (List.mem_flatMap.2 ⟨r, hr, List.mem_cons_of_mem _ List.mem_cons_self⟩)⟩

/-- A pass of `make_resync_request`, in any number of calls. Whatever puts a request off, a pass that comes to
the end of the bitmap has skipped no bit that is still set then. -/
theorem resync_pass_covers {n capacity maxBioSize : Nat} (turns : List (ResyncTurn n))
    (hcap : n ≤ (capacity + 7) / 8) (hmax : BM_BLOCK_SIZE ≤ maxBioSize) :
    InOrder (fun r : ResyncRound n => r.tested.bit) capacity maxBioSize
        (turns.flatMap ResyncTurn.rounds) (resyncPass capacity maxBioSize turns 0).requests ∧
      (∀ r ∈ (resyncPass capacity maxBioSize turns 0).requests, 8 * 2 ^ Nat.clog 2 r.blocks ∣ r.sector) ∧
      ∀ last : BitmapWith n, OnlyCleared (history (turns.flatMap ResyncTurn.rounds) ++ [last.bit]) →
        (resyncPass capacity maxBioSize turns 0).stop = .done → ∀ x, x < last.bmBits → last.bit x = true →
        ∃ r ∈ (resyncPass capacity maxBioSize turns 0).requests, r.Covers x := by
  obtain ⟨taken, hi, h⟩ := resyncPass_sweep capacity hmax turns (Nat.zero_le _)
  rw [h.requests]
  refine ⟨inOrder_of_sweep h.sweep hcap fun _ _ hp => hp.1, fun r hr => ?_,
    fun last hcleared hdone x hx hset => ?_⟩
  · obtain ⟨i, hmem, rfl⟩ := List.mem_map.1 hr
    obtain ⟨_, hle, _, hfits, haligned⟩ := h.sweep.inside i hmem
    have hlt := hfits.1
    have hsector : (requestOf capacity i.1 i.2).sector = 8 * i.1 := bmBitToSect_eq i.1
    rw [requestOf_blocks hle (by omega), hsector]
    exact Nat.mul_dvd_mul_left 8 haligned
  · rw [last.bits, ← h.done hdone] at hx
    obtain ⟨i, hmem, hxi⟩ := h.sweep.covers (Nat.zero_le x) hx (hcleared.throughout hset)
    have hlt := (h.sweep.inside i hmem).2.2.2.1.1
    exact covers_of_taken hmem hxi (by omega)

/-- A round in which nothing puts the request off. -/
abbrev calmRound (b : BitmapWith n) : ResyncRound n := ⟨false, b, false, b, .ok⟩

theorem makeResyncRequest_calm {b : BitmapWith n} {fo i number : Nat} (rounds : List (ResyncRound n))
    (hi : i < number) (hfind : bmFindNext b.toDrbdBitmap fo false = some bit)
    (hlast : (mergeResync b.toDrbdBitmap maxBioSize (bmBitToSect bit) (number - i) bit BM_BLOCK_SIZE 1).1 = last) :
    makeResyncRequest capacity maxBioSize number false (calmRound b :: rounds) fo i =
      (makeResyncRequest capacity maxBioSize number false rounds (last + 1) (i + (last - bit) + 1)).cons
        (requestOf capacity bit last) := by
  have hnext := bmFindNext_some hfind
  have hset : b.bit bit = true := by simpa using hnext.hit
  obtain ⟨last', hmerge, hle, _⟩ := mergeResync_spec b.toDrbdBitmap maxBioSize (bmBitToSect bit) (number - i) bit
    BM_BLOCK_SIZE 1 hnext.lt
  rw [hmerge] at hlast
  subst hlast
  have hsize : BM_BLOCK_SIZE + BM_BLOCK_SIZE * (last' - bit) = BM_BLOCK_SIZE * (last' - bit + 1) := by
    rw [Nat.mul_add, Nat.mul_one, Nat.add_comm]
  rw [makeResyncRequest]
  dsimp only
  rw [if_neg (by simp only [Bool.not_false, true_and]; omega), if_neg (by decide), hfind]
  dsimp only
  rw [if_neg (by decide), isSet_iff.2 ⟨hnext.lt, hset⟩, if_neg (by decide), hmerge, hsize]
  dsimp only
  rw [next_start hle]
  rfl

/-- One extent, with its last two blocks dirty. -/
def lastBlocks : BitmapWith 4096 := dirtyBlocks 4096 4094 4096

/-- A call that asks for both. -/
def smallTurn : ResyncTurn 4096 where
  goesOn := true
  number := 2
  rounds := [calmRound lastBlocks, calmRound lastBlocks]

theorem resyncPass_small : (resyncPass 32768 8192 [smallTurn] 0).requests = [⟨32752, 8192⟩] ∧
    (resyncPass 32768 8192 [smallTurn] 0).stop = .done := by
  have hfind : bmFindNext lastBlocks.toDrbdBitmap 0 false = some 4094 := find_dirtyBlocks (by decide) (by decide)
  have hlast : (mergeResync lastBlocks.toDrbdBitmap 8192 (bmBitToSect 4094) (2 - 0) 4094 BM_BLOCK_SIZE 1).1 =
      4095 := by decide
  have hrun : smallTurn.run 32768 8192 0 = ⟨[⟨32752, 8192⟩], .done, 4096⟩ := by
    rw [ResyncTurn.run, if_neg (by decide)]
    exact (makeResyncRequest_calm [calmRound lastBlocks] (by decide) hfind hlast).trans rfl
  rw [resyncPass, hrun]
  exact ⟨rfl, rfl⟩

theorem resync_pass_covers_small :
    (resyncPass 32768 8192 [smallTurn] 0).requests = [⟨32752, 8192⟩] ∧
      ∃ r ∈ (resyncPass 32768 8192 [smallTurn] 0).requests, r.Covers 4095 := by
  refine ⟨resyncPass_small.1, ?_⟩
  refine (resync_pass_covers [smallTurn] (by decide : 4096 ≤ (32768 + 7) / 8) (by decide)).2.2 lastBlocks ?_
    resyncPass_small.2 4095 (by decide) (by decide)
  refine List.pairwise_of_forall_mem_list fun b hb b' hb' x hx => ?_
  have hsame : ∀ b ∈ history ([smallTurn].flatMap ResyncTurn.rounds) ++ [lastBlocks.bit],
      b = lastBlocks.bit := by
    intro b hb
    simpa [history, smallTurn] using hb
  rw [hsame b hb]
  rwa [hsame b' hb'] at hx

/-! ## `make_sync_request_send` and `make_snapshot_sync_request_send` -/

/-- The rounds from `start` on, after `i` bits, are a sweep as far as `hi`. -/
structure SendSweep (n capacity maxBioSize weight start i : Nat) (rounds : List (SendRound n)) (res : Result)
    (taken : List (Nat × Nat)) (hi : Nat) : Prop where
  sweep : Sweep (fun r : SendRound n => r.found.bit) (fun r => r.tested.bit) (Fits n maxBioSize) start rounds
    taken hi
  requests : res.requests = requestsOf capacity taken
  done : res.stop = .done → n ≤ hi ∨ weight ≤ i + total taken

theorem sendRounds_sweep (capacity : Nat) (hmax : BM_BLOCK_SIZE ≤ maxBioSize) (weight : Nat) (locks again : Bool)
    (rounds : List (SendRound n)) (start i : Nat) :
    ∃ taken hi, SendSweep n capacity maxBioSize weight start i rounds
      (sendRounds capacity maxBioSize weight locks again rounds start i) taken hi := by
  induction rounds generalizing again start i with
  | nil => exact ⟨[], start, .stop, rfl, fun h => by cases h⟩
  | cons r rounds ih =>
      unfold sendRounds
      split
      · rename_i hend
        exact ⟨[], start, .stop, rfl, fun _ => .inr hend.2⟩
      split
      · exact ⟨[], start, .stop, rfl, fun h => by cases h⟩
      split
      · rename_i hfind
        have hclear := bmFindNext_none hfind
        rw [r.found.bits] at hclear
        by_cases hle : start ≤ n
        · exact ⟨[], n, .skip hle (fun x h1 h2 => .inl (hclear x h1 h2)) .stop, rfl, fun _ => .inl (le_refl n)⟩
        · exact ⟨[], start, .stop, rfl, fun _ => .inl (by omega)⟩
      rename_i bit hfind
      have hnext := bmFindNext_some hfind
      have hlt := hnext.lt
      rw [r.found.bits] at hlt
      have hin : bit < r.tested.bmBits := by
        rw [r.tested.bits]
        exact hlt
      dsimp only
      split
      · rename_i hclear
        obtain ⟨taken, hi, h⟩ := ih true (bit + 1) i
        refine ⟨taken, hi, .skip (by have := hnext.ge; omega) (fun x h1 h2 => ?_) h.sweep, h.requests, h.done⟩
        rcases Nat.eq_or_lt_of_le (show x ≤ bit by omega) with rfl | hx
        · exact .inr (tested_isClear hin hclear)
        · exact .inl (hnext.least x h1 hx)
      · rename_i htest
        have hset := (isSet_of_find hfind htest).2
        obtain ⟨last, hmerge, hle, hlast, hall, hmost, _⟩ := mergeSend_spec r.tested.toDrbdBitmap maxBioSize
          r.tested.bmBits bit 0 hin hset (by unfold mostBits; omega) (by omega)
        rw [Nat.zero_add, Nat.mul_one, Nat.add_zero] at hmerge
        have hfits : Fits n maxBioSize bit last := by
          refine ⟨by rw [← r.tested.bits]; exact hlast, ?_⟩
          simp only [mostBits, BM_BLOCK_SIZE] at hmax hmost ⊢
          omega
        have htake : ∀ {taken hi}, Sweep (fun r : SendRound n => r.found.bit) (fun r => r.tested.bit)
            (Fits n maxBioSize) (last + 1) rounds taken hi →
            Sweep (fun r : SendRound n => r.found.bit) (fun r => r.tested.bit) (Fits n maxBioSize) start
              (r :: rounds) ((bit, last) :: taken) hi :=
          fun h => .take hnext.ge hle (fun x h1 h2 => hnext.least x h1 h2) hall hfits h
        rw [hmerge]
        dsimp only
        rw [next_start hle]
        split
        · exact ⟨[], start, .stop, rfl, fun h => by cases h⟩
        split
        · exact ⟨[(bit, last)], last + 1, htake .stop, rfl, fun h => by cases h⟩
        · obtain ⟨taken, hi, h⟩ := ih false (last + 1) (i + (last - bit) + 1)
          refine ⟨(bit, last) :: taken, hi, htake h.sweep, by simp only [Result.cons, h.requests]; rfl, fun hdone => ?_⟩
          refine (h.done hdone).imp_right fun hweight => hweight.trans_eq ?_
          have htotal : total ((bit, last) :: taken) = last + 1 - bit + total taken := rfl
          omega

/-- Every round ends the pass or moves on by a bit at least. -/
theorem sendRounds_ends (capacity maxBioSize weight : Nat) (locks again : Bool) (rounds : List (SendRound n))
    (start i : Nat) (hlen : n - start < rounds.length) :
    (sendRounds capacity maxBioSize weight locks again rounds start i).stop ≠ .interrupted := by
  induction rounds generalizing again start i with
  | nil => exact absurd hlen (Nat.not_lt_zero _)
  | cons r rounds ih =>
      rw [List.length_cons] at hlen
      unfold sendRounds
      split
      · exact fun h => by cases h
      split
      · exact fun h => by cases h
      split
      · exact fun h => by cases h
      rename_i bit hfind
      have hnext := bmFindNext_some hfind
      have hge := hnext.ge
      have hlt := hnext.lt
      rw [r.found.bits] at hlt
      dsimp only
      split
      · exact ih true (bit + 1) i (by omega)
      rename_i htest
      have hin : bit < r.tested.bmBits := by
        rw [r.tested.bits]
        exact hlt
      obtain ⟨last, hmerge, hle, _⟩ := mergeSend_spec r.tested.toDrbdBitmap maxBioSize r.tested.bmBits bit 0 hin
        (isSet_of_find hfind htest).2 (by unfold mostBits; omega) (by omega)
      rw [Nat.zero_add, Nat.mul_one, Nat.add_zero] at hmerge
      rw [hmerge]
      dsimp only
      rw [next_start hle]
      split
      · exact fun h => by cases h
      split
      · exact fun h => by cases h
      · exact ih false (last + 1) (i + (last - bit) + 1) (by omega)

/-- The bit is set at the beginning, in every search and in every test. -/
def SetThroughout (b : BitmapWith n) (rounds : List (SendRound n)) (x : Nat) : Prop :=
  b.bit x = true ∧ ∀ r ∈ rounds, r.found.bit x = true ∧ r.tested.bit x = true

/-- No test sees a bit set that was clear when the weight was taken. -/
def NothingSet (b : BitmapWith n) (rounds : List (SendRound n)) : Prop :=
  ∀ r ∈ rounds, ∀ x, r.tested.bit x = true → b.bit x = true

/-- A pass takes at most one round more than there are bits, and asks for every bit once. -/
structure SendPass (capacity maxBioSize : Nat) (b : BitmapWith n) (rounds : List (SendRound n)) (res : Result) :
    Prop where
  ends : n < rounds.length → res.stop ≠ .interrupted
  inOrder : InOrder (fun r : SendRound n => r.tested.bit) capacity maxBioSize rounds res.requests
  covers : NothingSet b rounds → res.stop = .done → ∀ x, x < n → SetThroughout b rounds x →
    ∃! r, r ∈ res.requests ∧ r.Covers x

theorem BitmapWith.count (b : BitmapWith n) : Nat.count (fun x => b.bit x) n = b.bmSet := by
  rw [b.counted, b.bits, Nat.count]
  simp only [Bool.decide_eq_true]

/-- No bit is in two requests. -/
theorem InOrder.once {ρ : Type} {tested : ρ → Nat → Bool} {rounds : List ρ} {requests : List Request}
    (h : InOrder tested capacity maxBioSize rounds requests) {r r' : Request} {x : Nat} (hr : r ∈ requests)
    (hr' : r' ∈ requests) (hx : r.Covers x) (hx' : r'.Covers x) : r = r' := by
  by_contra hne
  have hsymm : Std.Symm fun r r' : Request => ∀ x, ¬ (r.Covers x ∧ r'.Covers x) :=
    ⟨fun _ _ h x hx => h x hx.symm⟩
  exact h.apart.forall hr hr' hne x ⟨hx, hx'⟩

theorem requestSend_pass {capacity maxBioSize : Nat} (locks : Bool) (b : BitmapWith n)
    (rounds : List (SendRound n)) (hcap : n ≤ (capacity + 7) / 8) (hmax : BM_BLOCK_SIZE ≤ maxBioSize) :
    SendPass capacity maxBioSize b rounds (requestSend capacity maxBioSize locks b rounds) := by
  have hsome : ∀ {x}, x < n → b.bit x = true → 0 < b.bmSet := fun hx hset => by
    rw [← b.count]
    exact (Nat.zero_le _).trans_lt (Nat.count_strict_mono hset hx)
  unfold requestSend
  split
  · refine ⟨fun _ => nofun, ?_, fun _ _ x hx hset => ?_⟩
    · have hnone : Sweep (fun r : SendRound n => r.found.bit) (fun r => r.tested.bit) (Fits n maxBioSize)
          0 rounds [] 0 :=
        .stop
      exact inOrder_of_sweep hnone hcap fun _ _ hfits => hfits
    · have := hsome hx hset.1
      omega
  · obtain ⟨taken, hi, h⟩ := sendRounds_sweep capacity hmax b.bmSet locks false rounds 0 0
    have hinOrder := inOrder_of_sweep h.sweep hcap fun _ _ hfits => hfits
    rw [← h.requests] at hinOrder
    refine ⟨fun hlen => sendRounds_ends capacity maxBioSize b.bmSet locks false rounds 0 0 (by omega), hinOrder,
      fun hnothing hdone x hx hset => ?_⟩
    have htaken : ∃ i ∈ taken, i.1 ≤ x ∧ x ≤ i.2 := by
      rcases h.done hdone with hend | hweight
      · exact h.sweep.covers (Nat.zero_le x) (by omega) hset.2
      · rw [Nat.zero_add, ← b.count] at hweight
        exact h.sweep.covers_of_total hnothing hweight hx hset.1 hset.2
    obtain ⟨i, hi, hxi⟩ := htaken
    have hlt := (h.sweep.inside i hi).2.2.2.1
    obtain ⟨r, hr, hcovers⟩ := covers_of_taken hi hxi (show 8 * i.2 < capacity by omega)
    rw [← h.requests] at hr
    exact ⟨r, ⟨hr, hcovers⟩, fun r' hr' => hinOrder.once hr'.1 hr hr'.2 hcovers⟩

/-- Both loops end, keep their requests apart and inside the device, and ask once for every bit that is set
throughout, unless bits that were set only later have used up the weight. -/
theorem send_passes_cover_once {n capacity maxBioSize : Nat} (b : BitmapWith n) (rounds : List (SendRound n))
    (hcap : n ≤ (capacity + 7) / 8) (hmax : BM_BLOCK_SIZE ≤ maxBioSize) :
    SendPass capacity maxBioSize b rounds (makeSyncRequestSend capacity maxBioSize b rounds) ∧
      SendPass capacity maxBioSize b rounds (makeSnapshotSyncRequestSend capacity maxBioSize b rounds) :=
  ⟨requestSend_pass true b rounds hcap hmax, requestSend_pass false b rounds hcap hmax⟩

/-- One extent, with its first two blocks dirty. -/
def firstBlocks : BitmapWith 4096 := dirtyBlocks 4096 0 2

theorem send_passes_cover_once_small :
    ∃! r, r ∈ (makeSyncRequestSend 32768 8192 firstBlocks (List.replicate 4 (smoothRound firstBlocks))).requests ∧
      r.Covers 1 := by
  have hrounds : ∀ r ∈ List.replicate 4 (smoothRound firstBlocks), r = smoothRound firstBlocks :=
    fun r hr => List.eq_of_mem_replicate hr
  refine (send_passes_cover_once firstBlocks (List.replicate 4 (smoothRound firstBlocks))
    (by decide : 4096 ≤ (32768 + 7) / 8) (by decide : BM_BLOCK_SIZE ≤ 8192)).1.covers ?_ (by decide) 1 (by decide) ?_
  · intro r hr x hx
    rwa [hrounds r hr] at hx
  · refine ⟨by decide, fun r hr => ?_⟩
    rw [hrounds r hr]
    exact ⟨by decide, by decide⟩

/-- The second of the two is dirty. -/
def secondBlock : BitmapWith 4096 := dirtyBlocks 4096 1 2

/-- A write dirties the first block too; it uses up the weight of one, and the pass ends without the second, which
was dirty all the time. -/
theorem send_pass_misses_block :
    SetThroughout secondBlock (List.replicate 4 (smoothRound firstBlocks)) 1 ∧
      (makeSyncRequestSend 32768 4096 secondBlock (List.replicate 4 (smoothRound firstBlocks))).stop = .done ∧
      ¬ ∃ r ∈ (makeSyncRequestSend 32768 4096 secondBlock (List.replicate 4 (smoothRound firstBlocks))).requests,
        r.Covers 1 := by
  refine ⟨⟨by decide, fun r hr => ?_⟩, by decide, ?_⟩
  · rw [List.eq_of_mem_replicate hr]
    exact ⟨by decide, by decide⟩
  · have hrequests : (makeSyncRequestSend 32768 4096 secondBlock
        (List.replicate 4 (smoothRound firstBlocks))).requests = [⟨0, 4096⟩] := by decide
    rintro ⟨r, hr, s, _, hs, hbit⟩
    rw [hrequests, List.mem_singleton] at hr
    subst hr
    change s < 0 + 4096 >>> 9 at hs
    change s >>> 3 = 1 at hbit
    rw [Nat.shiftRight_eq_div_pow] at hs hbit
    omega

end Drbd.ResyncRequest
