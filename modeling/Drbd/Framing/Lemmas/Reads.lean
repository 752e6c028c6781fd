import Drbd.Framing.Defs

/-!
# How much is read

For each way a handler reads the rest of its packet: how many bytes were taken when it succeeds.
-/

namespace Drbd.Framing

open Lib Lib.Reader Xfer

variable {s s' : List UInt8} {node : Node} {size : Nat}

/-! ## Sizes as the code keeps them -/

/-- Read as an `int`, a size is itself or negative. -/
theorem signed_cases {n : Nat} (hn : n < 2 ^ 32) :
    (n < 2 ^ 31 ∧ signed 32 n = n) ∨ (signed 32 n < 0 ∧ -2 ^ 31 ≤ signed 32 n) := by
  unfold signed Int.bmod
  dsimp only
  split <;> omega

/-- As an unsigned number a negative size is more than can be received. -/
theorem nonneg_of_unsigned {d : Int} {w : Nat} (hw : w = 32 ∨ w = 64) (hd : -2 ^ 31 ≤ d) (hlt : d < 2 ^ 31)
    (h : unsigned w d < 2 ^ 31) : 0 ≤ d ∧ unsigned w d = d.toNat := by
  unfold unsigned at h ⊢
  rcases hw with rfl | rfl <;> omega

/-! ## Loops -/

theorem drbdRecvAll_some {n : Nat} {xs : List UInt8} (h : drbdRecvAll n s = some (xs, s')) :
    n < 2 ^ 31 ∧ Took s s' n ∧ xs = s.take n := by
  unfold drbdRecvAll at h
  split at h
  · rename_i hlt
    exact ⟨hlt, take_eq_some h⟩
  · cases h

theorem drainLoop_some {fuel : Nat} {d : Int} (hd : -2 ^ 31 ≤ d) (hlt : d < 2 ^ 31)
    (h : drainLoop fuel d s = some ((), s')) : 0 ≤ d ∧ Took s s' d.toNat := by
  induction fuel generalizing d s with
  | zero => cases h
  | succ fuel ih =>
      unfold drainLoop at h
      split at h
      · rename_i hzero
        cases h
        rw [hzero]
        exact ⟨le_refl _, .refl _⟩
      · obtain ⟨xs, s₁, hrecv, hrest⟩ := bind_eq_some h
        obtain ⟨hsmall, htook, _⟩ := drbdRecvAll_some hrecv
        have hpage : (PAGE_SIZE : Int) = 4096 := rfl
        obtain ⟨hnonneg, heq⟩ := nonneg_of_unsigned (.inl rfl) (by omega) (by omega) hsmall
        obtain ⟨hnonneg', htook'⟩ := ih (by omega) (by omega) hrest
        refine ⟨by omega, ?_⟩
        have hboth := htook.trans htook'
        rw [heq] at hboth
        rwa [show (min d PAGE_SIZE).toNat + (d - min d PAGE_SIZE).toNat = d.toNat by omega] at hboth

theorem ignoreLoop_some {fuel : Nat} {d : Int} (hlt : d < 2 ^ 31)
    (h : ignoreLoop fuel d s = some ((), s')) : 0 ≤ d ∧ Took s s' d.toNat := by
  induction fuel generalizing d s with
  | zero => cases h
  | succ fuel ih =>
      unfold ignoreLoop at h
      split at h
      · rename_i hzero
        cases h
        rw [hzero]
        exact ⟨le_refl _, .refl _⟩
      · rename_i hne
        obtain ⟨n, s₁, hrecv, hrest⟩ := bind_eq_some h
        unfold drbdRecv at hrecv
        cases hrecv
        split at hrest
        · cases hrest
        rename_i hpos
        obtain ⟨hnonneg, htook⟩ := ih (by omega) hrest
        have hbuffer : (DRBD_SOCKET_BUFFER_SIZE : Int) = 4096 := rfl
        have hsize : unsigned 64 (min d DRBD_SOCKET_BUFFER_SIZE) = (min d DRBD_SOCKET_BUFFER_SIZE).toNat := by
          unfold unsigned
          rw [Int.emod_eq_of_lt (by omega) (by omega)]
        rw [hsize] at hnonneg htook
        refine ⟨by omega, ?_⟩
        have hfirst : Took s (s.drop (min d DRBD_SOCKET_BUFFER_SIZE).toNat)
            (min (min d DRBD_SOCKET_BUFFER_SIZE).toNat s.length) := by
          refine ⟨Nat.min_le_right _ _, ?_⟩
          rcases Nat.le_total (min d DRBD_SOCKET_BUFFER_SIZE).toNat s.length with hle | hle
          · rw [Nat.min_eq_left hle]
          · rw [Nat.min_eq_right hle, List.drop_eq_nil_of_le hle, List.drop_eq_nil_of_le (le_refl _)]
        have hboth := hfirst.trans htook
        rwa [show min (min d DRBD_SOCKET_BUFFER_SIZE).toNat s.length
          + (d - (min (min d DRBD_SOCKET_BUFFER_SIZE).toNat s.length : Nat)).toNat = d.toNat by omega] at hboth

theorem recvPages_some {pages ds : Nat} (h : recvPages pages ds s = some ((), s')) :
    Took s s' (min ds (pages * PAGE_SIZE)) := by
  induction pages generalizing ds s with
  | zero =>
      cases h
      rw [Nat.zero_mul, Nat.min_zero]
      exact .refl _
  | succ pages ih =>
      obtain ⟨xs, s₁, hrecv, hrest⟩ := bind_eq_some h
      have hboth := (drbdRecvAll_some hrecv).2.1.trans (ih hrest)
      rwa [show min ds PAGE_SIZE + min (ds - min ds PAGE_SIZE) (pages * PAGE_SIZE)
        = min ds ((pages + 1) * PAGE_SIZE) by rw [Nat.add_mul]; omega] at hboth

theorem recvSegments_some {segments : List Nat} {d : Int} (hd : -2 ^ 31 ≤ d) (hlt : d < 2 ^ 31)
    (h : recvSegments segments d s = some ((), s')) :
    (segments ≠ [] → 0 ≤ d) ∧ Took s s' (min d.toNat segments.sum) := by
  induction segments generalizing d s with
  | nil =>
      cases h
      rw [List.sum_nil, Nat.min_zero]
      exact ⟨fun hne => absurd rfl hne, .refl _⟩
  | cons bvLen segments ih =>
      obtain ⟨xs, s₁, hrecv, hrest⟩ := bind_eq_some h
      obtain ⟨hsmall, htook, _⟩ := drbdRecvAll_some hrecv
      obtain ⟨hnonneg, heq⟩ := nonneg_of_unsigned (.inr rfl) (by omega) (by omega) hsmall
      have hboth := htook.trans (ih (by omega) (by omega) hrest).2
      rw [heq] at hboth
      rw [List.sum_cons]
      refine ⟨fun _ => by omega, ?_⟩
      rwa [show (min d bvLen).toNat + min (d - min d bvLen).toNat segments.sum
        = min d.toNat (bvLen + segments.sum) by omega] at hboth

/-! ## Parts of handlers -/

theorem finish_some (h : node.finish s = some ((), s')) : s = s' := by
  unfold Node.finish at h
  split at h
  · exact (pure_eq_some h).2
  · cases h

theorem after_some {m : Recv Unit} (h : node.after m s = some ((), s')) : m s = some ((), s') := by
  obtain ⟨_, s₁, hm, hfinish⟩ := bind_eq_some h
  rw [← finish_some hfinish]
  exact hm

theorem discard_some {n : Nat} (h : (discard (drbdRecvAll n) : Recv Unit) s = some ((), s')) :
    n < 2 ^ 31 ∧ Took s s' n := by
  unfold discard at h
  obtain ⟨xs, s₁, hrecv, hpure⟩ := bind_eq_some (g := fun _ => pure ()) h
  cases hpure
  have h := drbdRecvAll_some hrecv
  exact ⟨h.1, h.2.1⟩

/-- A drained packet is drained whole, and its size has not wrapped. -/
theorem drbdDrainBlock_some (hsize : size < 2 ^ 32) (h : drbdDrainBlock (signed 32 size) s = some ((), s')) :
    size < 2 ^ 31 ∧ Took s s' size := by
  rcases signed_cases hsize with ⟨hlt, heq⟩ | ⟨hneg, hge⟩
  · rw [heq] at h
    exact ⟨hlt, (drainLoop_some (by omega) (by omega) h).2⟩
  · have := (drainLoop_some hge (by omega) h).1
    omega

theorem ignoreRemainingPacket_some (hsize : size < 2 ^ 32)
    (h : ignoreRemainingPacket (signed 32 size) s = some ((), s')) : size < 2 ^ 31 ∧ Took s s' size := by
  rcases signed_cases hsize with ⟨hlt, heq⟩ | ⟨hneg, hge⟩
  · rw [heq] at h
    exact ⟨hlt, (ignoreLoop_some (by omega) h).2⟩
  · have := (ignoreLoop_some (by omega) h).1
    omega

theorem readInBlock_some {device : Device} {p : List UInt8} (hsize : size < 2 ^ 32)
    (h : readInBlock node device size p s = some ((), s')) : size < 2 ^ 31 ∧ Took s s' size := by
  have hdigest := node.digestSize_le
  obtain ⟨xs, s₁, hrecv, hrest⟩ := bind_eq_some h
  dsimp only at hrest
  split at hrest
  · cases hrest
  split at hrest
  · cases hrest
  rename_i hmax
  split at hrest
  · cases hrest
  have hboth := (drbdRecvAll_some hrecv).2.1.trans (recvPages_some hrest)
  simp only [DRBD_MAX_BIO_SIZE] at hmax
  have heq : unsigned 32 (size - node.digestSize) = size - node.digestSize ∧ node.digestSize ≤ size := by
    unfold unsigned at hmax ⊢
    omega
  rw [heq.1] at hboth hmax
  simp only [PAGE_SIZE] at hboth
  refine ⟨by omega, ?_⟩
  rwa [show node.digestSize + min (size - node.digestSize)
    ((size - node.digestSize + (4096 - 1)) / 4096 * 4096) = size by omega] at hboth

theorem recvDlessRead_some {bio : Bio} (hsize : size < 2 ^ 32)
    (h : recvDlessRead node bio size s = some ((), s')) :
    node.digestSize ≤ size ∧ size - node.digestSize < 2 ^ 31 ∧
      Took s s' (node.digestSize + min (size - node.digestSize) bio.segments.sum) := by
  have hdigest := node.digestSize_le
  obtain ⟨xs, s₁, hrecv, hrest⟩ := bind_eq_some h
  have hd : -2 ^ 31 ≤ signed 32 (size - node.digestSize) := le_signed 31 _
  have hlt : signed 32 (size - node.digestSize) < 2 ^ 31 := signed_lt 31 _
  obtain ⟨hnonneg, htook⟩ := recvSegments_some hd hlt hrest
  have hnonneg := hnonneg bio.nonempty
  have heq : signed 32 (size - node.digestSize) = size - node.digestSize ∧ node.digestSize ≤ size := by
    unfold signed Int.bmod at hnonneg ⊢
    dsimp only at hnonneg ⊢
    split at hnonneg <;> rename_i hr
    · rw [if_pos hr]
      omega
    · omega
  have hboth := (drbdRecvAll_some hrecv).2.1.trans htook
  rw [heq.1] at hboth hlt
  refine ⟨heq.2, by omega, ?_⟩
  rwa [show (size - node.digestSize : Int).toNat = size - node.digestSize by omega] at hboth

/-- Three bytes for a bio of two segments, and one behind them. -/
example : recvDlessRead ⟨fun _ => none, 0, by decide, true⟩ ⟨[2, 1], by decide⟩ 3 [1, 2, 3, 4] = some ((), [4]) := by
  decide

end Drbd.Framing
