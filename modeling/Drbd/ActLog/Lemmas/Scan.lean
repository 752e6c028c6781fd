import Drbd.ActLog.Defs
import Drbd.Lib.Ring
import Mathlib.Data.List.Basic

/-!
# What the replayer sees of a ring

A ring that shows an unbroken stretch of transactions, each at its position, is replayed in the order
in which they were written.
-/

namespace Drbd.ActLog

open Lib

variable {alCpu h : Nat → AlBlock} {mx first lo len : Nat}

/-- By position, the ring shows the transactions from `lo` up to, not including, `len`. -/
structure Shows (alCpu : Nat → AlBlock) (mx first lo len : Nat) (h : Nat → AlBlock) : Prop where
  span : len ≤ lo + mx
  size : mx ≤ 2 ^ 31
  block : ∀ i, lo ≤ i → i < len → alCpu ((first + i) % mx) = h i
  update : ∀ i, lo ≤ i → i < len → (h i).isValid = true ∧ (h i).transactionType = AL_TR_UPDATE ∧
    (h i).trNumber = (first + i) % 2 ^ 32
  only : ∀ p < mx, (alCpu p).isValid = true → (alCpu p).transactionType ≠ AL_TR_INITIALIZED →
    ∃ i, lo ≤ i ∧ i < len ∧ p = (first + i) % mx

def cursorAt (mx first i : Nat) : AlCursor := ⟨(first + i) % mx, (first + i) % 2 ^ 32⟩

/-- After `m` rounds the cursors are on the oldest and the newest transaction below position `m`. -/
def Scanned (mx first lo len m : Nat) (s : Scan) : Prop :=
  s.foundValidUpdates ≤ s.foundValid ∧
  ((s.foundValidUpdates = 0 ∧ ∀ i, lo ≤ i → i < len → m ≤ (first + i) % mx) ∨
    (0 < s.foundValidUpdates ∧ ∃ i k, (lo ≤ i ∧ i < len) ∧ (lo ≤ k ∧ k < len) ∧
      s.oldest = cursorAt mx first i ∧ s.newest = cursorAt mx first k ∧
      ∀ j, lo ≤ j → j < len → (first + j) % mx < m → i ≤ j ∧ j ≤ k))

theorem Shows.inj (hs : Shows alCpu mx first lo len h) {i j : Nat} (hi : lo ≤ i ∧ i < len)
    (hj : lo ≤ j ∧ j < len) (heq : (first + i) % mx = (first + j) % mx) : i = j := by
  have hspan := hs.span
  rcases Nat.le_total i j with hle | hle
  · exact ring_inj hle (by omega) heq
  · exact (ring_inj hle (by omega) heq.symm).symm

/-- A position that holds no transaction leaves the cursors as they are. -/
theorem Scanned.skip {m : Nat} {s s' : Scan} (h : Scanned mx first lo len m s)
    (hno : ∀ i, lo ≤ i → i < len → (first + i) % mx ≠ m) (hle : s.foundValid ≤ s'.foundValid)
    (hcount : s'.foundValidUpdates = s.foundValidUpdates) (hold : s'.oldest = s.oldest)
    (hnew : s'.newest = s.newest) : Scanned mx first lo len (m + 1) s' := by
  obtain ⟨hfound, hcases⟩ := h
  refine ⟨by omega, ?_⟩
  rw [hcount, hold, hnew]
  rcases hcases with ⟨hzero, hnone⟩ | ⟨hpos, i, k, hi, hk, ho, hn, hall⟩
  · refine .inl ⟨hzero, fun i hlo hlt => ?_⟩
    have := hnone i hlo hlt
    have := hno i hlo hlt
    omega
  · refine .inr ⟨hpos, i, k, hi, hk, ho, hn, fun j hlo hlt hj => ?_⟩
    have := hno j hlo hlt
    exact hall j hlo hlt (by omega)

theorem Scanned.round (hs : Shows alCpu mx first lo len h) {m : Nat} (hm : m < mx) {s : Scan}
    (hsc : Scanned mx first lo len m s) : Scanned mx first lo len (m + 1) (scanBlock alCpu s m) := by
  have hspan := hs.span
  have hsize := hs.size
  unfold scanBlock
  by_cases hvalid : (alCpu m).isValid = false
  · rw [if_pos hvalid]
    refine hsc.skip (fun i hlo hlt heq => ?_) (le_refl _) rfl rfl rfl
    have := (hs.update i hlo hlt).1
    rw [← hs.block i hlo hlt, heq, hvalid] at this
    cases this
  rw [if_neg hvalid]
  dsimp only
  by_cases hinit : (alCpu m).transactionType = AL_TR_INITIALIZED
  · rw [if_pos hinit]
    refine hsc.skip (fun i hlo hlt heq => ?_) (Nat.le_succ _) rfl rfl rfl
    have := (hs.update i hlo hlt).2.1
    rw [← hs.block i hlo hlt, heq, hinit] at this
    cases this
  rw [if_neg hinit]
  obtain ⟨j, hlo, hlt, hj⟩ := hs.only m hm (by simpa using hvalid) hinit
  have hhere : (⟨m, (alCpu m).trNumber⟩ : AlCursor) = cursorAt mx first j := by
    have hblock := hs.block j hlo hlt
    rw [← hj] at hblock
    rw [hblock, (hs.update j hlo hlt).2.2, hj]
    rfl
  have honly : ∀ i, lo ≤ i → i < len → (first + i) % mx < m + 1 → (first + i) % mx < m ∨ i = j := by
    intro i hlo' hlt' hpos
    by_cases heq : (first + i) % mx = m
    · exact .inr (hs.inj ⟨hlo', hlt'⟩ ⟨hlo, hlt⟩ (heq.trans hj))
    · exact .inl (by omega)
  rw [hhere]
  obtain ⟨hfound, hcases⟩ := hsc
  rcases hcases with ⟨hzero, hnone⟩ | ⟨hpos, i, k, hi, hk, ho, hn, hall⟩
  · rw [if_pos (by omega)]
    refine ⟨by dsimp only; omega, .inr ⟨by dsimp only; omega, j, j, ⟨hlo, hlt⟩, ⟨hlo, hlt⟩, rfl, rfl,
      fun i hlo' hlt' hpos => ?_⟩⟩
    rcases honly i hlo' hlt' hpos with hbelow | rfl
    · have := hnone i hlo' hlt'
      omega
    · exact ⟨le_refl _, le_refl _⟩
  · -- the two comparisons, each right because the whole stretch is shorter than half a turn
    rw [if_neg (by omega)]
    have hlt_iff : SerialLt (cursorAt mx first j).trNumber (cursorAt mx first i).trNumber ↔ j < i :=
      serialLt_iff (by omega) (by omega)
    have hgt_iff : SerialGt (cursorAt mx first j).trNumber (cursorAt mx first k).trNumber ↔ k < j :=
      serialGt_iff (by omega) (by omega)
    refine ⟨Nat.succ_le_succ hfound, .inr ⟨Nat.succ_pos _, min i j, max k j, by omega, by omega, ?_, ?_,
      fun t hlo' hlt' hpos => ?_⟩⟩
    · simp only [Scan.widen, ho, hlt_iff]
      by_cases hji : j < i
      · rw [if_pos hji, Nat.min_eq_right (by omega)]
      · rw [if_neg hji, Nat.min_eq_left (by omega)]
    · simp only [Scan.widen, hn, hgt_iff]
      by_cases hkj : k < j
      · rw [if_pos hkj, Nat.max_eq_right (by omega)]
      · rw [if_neg hkj, Nat.max_eq_left (by omega)]
    · rcases honly t hlo' hlt' hpos with hbelow | rfl
      · have := hall t hlo' hlt' hbelow
        omega
      · omega

theorem Scanned.foldl (hs : Shows alCpu mx first lo len h) {m : Nat} (hm : m ≤ mx) :
    Scanned mx first lo len m ((List.range m).foldl (scanBlock alCpu) ⟨0, 0, ⟨0, 0⟩, ⟨0, 0⟩⟩) := by
  induction m with
  | zero => exact ⟨le_refl _, .inl ⟨rfl, fun _ _ _ => Nat.zero_le _⟩⟩
  | succ m ih =>
      rw [List.range_succ, List.foldl_append, List.foldl_cons, List.foldl_nil]
      exact (ih (by omega)).round hs (by omega)

/-- The whole scan finds both ends of the stretch. -/
theorem scan_ends (hs : Shows alCpu mx first lo len h) (hlt : lo < len) :
    0 < (scan alCpu mx).foundValid ∧ 0 < (scan alCpu mx).foundValidUpdates ∧
      (scan alCpu mx).oldest = cursorAt mx first lo ∧
      (scan alCpu mx).newest = cursorAt mx first (len - 1) := by
  have hspan := hs.span
  have hmx : 0 < mx := by omega
  obtain ⟨hfound, hcases⟩ := Scanned.foldl hs (le_refl mx)
  rcases hcases with ⟨_, hnone⟩ | ⟨hpos, i, k, hi, hk, ho, hn, hall⟩
  · have := hnone lo (le_refl _) hlt
    have := Nat.mod_lt (first + lo) hmx
    omega
  · have hlow := hall lo (le_refl _) hlt (Nat.mod_lt _ hmx)
    have hhigh := hall (len - 1) (by omega) (by omega) (Nat.mod_lt _ hmx)
    refine ⟨lt_of_lt_of_le hpos hfound, hpos, ?_, ?_⟩
    · rw [show lo = i by omega]
      exact ho
    · rw [show len - 1 = k by omega]
      exact hn

/-- The walk passes the transactions of the stretch in their order. -/
theorem walk_eq (hs : Shows alCpu mx first lo len h) (hlt : lo < len) (hot : Nat → Nat) :
    let oldest := cursorAt mx first lo
    let newest := cursorAt mx first (len - 1)
    let last := if newest.i < oldest.i then newest.i + mx else newest.i
    (List.range' oldest.i (last + 1 - oldest.i)).foldl
        (fun hot b => replayBlock hot (alCpu (b % mx))) hot
      = (List.range' lo (len - lo)).foldl (fun hot i => replayBlock hot (h i)) hot := by
  have hspan := hs.span
  dsimp only [cursorAt]
  rw [ring_span (show lo ≤ len - 1 by omega) (by omega),
    show (first + lo) % mx + (len - 1 - lo) + 1 - (first + lo) % mx = len - lo by omega,
    List.range'_eq_map_range, List.range'_eq_map_range, List.foldl_map, List.foldl_map]
  refine List.foldl_ext _ _ hot fun hot t ht => ?_
  have ht := List.mem_range.1 ht
  rw [Nat.mod_add_mod, Nat.add_assoc, hs.block (lo + t) (by omega) (by omega)]

/-! ## A ring without transactions -/

theorem scan_fresh (alCpu : Nat → AlBlock) {q : Nat} (hinit : ∀ p < mx, p ≠ q → alCpu p = initializedBlock)
    (hq : (alCpu q).isValid = false ∨ mx ≤ q) :
    (scan alCpu mx).foundValid = mx - (if q < mx then 1 else 0) ∧ (scan alCpu mx).foundValidUpdates = 0 := by
  have hrounds : ∀ m ≤ mx, ((List.range m).foldl (scanBlock alCpu) ⟨0, 0, ⟨0, 0⟩, ⟨0, 0⟩⟩)
      = ⟨m - (if q < m then 1 else 0), 0, ⟨0, 0⟩, ⟨0, 0⟩⟩ := by
    intro m hm
    induction m with
    | zero => rfl
    | succ m ih =>
        rw [List.range_succ, List.foldl_append, List.foldl_cons, List.foldl_nil, ih (by omega)]
        unfold scanBlock
        by_cases hmq : m = q
        · subst hmq
          have hbad : (alCpu m).isValid = false := hq.resolve_right (by omega)
          rw [if_pos hbad, if_neg (by omega), if_pos (by omega)]
          rfl
        · rw [hinit m (by omega) hmq, if_neg (by decide)]
          dsimp only
          rw [if_pos (show initializedBlock.transactionType = AL_TR_INITIALIZED from rfl)]
          congr 1
          split <;> split <;> omega
  unfold scan
  rw [hrounds mx (le_refl _)]
  exact ⟨rfl, rfl⟩

end Drbd.ActLog
