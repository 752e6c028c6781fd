import Drbd.Meta.Lemmas.Parse
import Drbd.Meta.Lemmas.Print

/-!
# Writing the words of a dump
-/

namespace Drbd.Meta

open Lib

variable {dev dev0 : Device} {off limit : Int} {hs k : Nat} {W : Nat → Nat} {w w' : BmWriter}

/-- The words one after the other. -/
def BmWriter.putAll (limit : Int) : List Nat → BmWriter → Option Put
  | [], w => some (.ok w)
  | v :: vs, w => do
      match ← w.put limit v with
      | .ok w => putAll limit vs w
      | .truncated dev => some (.truncated dev)

theorem BmWriter.putAll_cons {v : Nat} {vs : List Nat} : w.putAll limit (v :: vs) = some (.ok w') ↔
    ∃ w1, w.put limit v = some (.ok w1) ∧ w1.putAll limit vs = some (.ok w') := by
  rw [BmWriter.putAll]
  cases hput : w.put limit v with
  | none => simp
  | some p => cases p <;> simp

/-- Without writing, only the form of the pieces counts. -/
theorem parseWords_parseOnly {ps : List (Piece Nat)} (hlen : (spell ps).length < 2 ^ 31) (ts : List Token) :
    parseWords true limit (ps.flatMap pieceTokens ++ .rbrace :: ts) w = some (.rest ts w) := by
  induction ps with
  | nil => simp [parseWords]
  | cons p ps ih =>
      rw [spell_cons, List.length_append] at hlen
      have hrest := ih (by omega)
      rw [List.flatMap_cons, List.append_assoc]
      cases p with
      | one v => simpa only [pieceTokens, List.cons_append, List.nil_append, parseWords, if_true] using hrest
      | run count v =>
          have hcount : count < 2 ^ 31 := by
            simp only [Piece.spell, List.length_replicate] at hlen
            omega
          simpa only [pieceTokens, List.cons_append, List.nil_append, printNum_of_lt (Nat.lt_trans hcount (by decide)),
            parseWords, if_true] using hrest

/-! ## What is on the device -/

/-- After `k` words: the full buffers are on the device, the rest is in the buffer. -/
structure BmWriter.Written (dev0 : Device) (off : Int) (W : Nat → Nat) (k : Nat) (w : BmWriter) : Prop where
  i : w.i = k % bufferWords
  bmOnDiskOff : w.bmOnDiskOff = off + 8 * (k - k % bufferWords : Nat)
  bm : ∀ j < w.i, w.bm j = W (k - k % bufferWords + j)
  dev : w.dev = { dev0 with byte := blit dev0.byte off.toNat (8 * (k - k % bufferWords)) (bytesOf W) }

theorem bytesOf_shift {bm : Nat → Nat} {b m y : Nat} (h : ∀ j < m, bm j = W (b + j)) (hy : y < 8 * m) :
    bytesOf bm y = bytesOf W (8 * b + y) := by
  unfold bytesOf
  rw [h _ (by omega), show (8 * b + y) / 8 = b + y / 8 by omega, show (8 * b + y) % 8 = y % 8 by omega]

theorem bytesOf_congr {f g : Nat → Nat} {m y : Nat} (h : ∀ j < m, f j = g j) (hy : y < 8 * m) :
    bytesOf f y = bytesOf g y := by
  unfold bytesOf
  rw [h _ (by omega)]

/-- A buffer that continues another one. -/
theorem blit_blit {f g h : Nat → UInt8} {a b c : Nat} (hc : ∀ y < c, h y = g (b + y)) :
    blit (blit f a b g) (a + b) c h = blit f a (b + c) g := by
  funext x
  unfold blit
  by_cases hin : a + b ≤ x ∧ x < a + b + c
  · rw [if_pos hin, if_pos (by omega), hc _ (by omega)]
    congr 1
    omega
  · rw [if_neg hin]
    by_cases hin' : a ≤ x ∧ x < a + b
    · rw [if_pos hin', if_pos (by omega)]
    · rw [if_neg hin', if_neg (by omega)]

theorem pwriteWithLimitOrDie_eq {buf : Nat → UInt8} {count : Int} (hlt : off < limit) (hle : count ≤ limit - off)
    (ht : Transfers dev count off) : pwriteWithLimitOrDie dev buf count off limit =
      some (count, { dev with byte := blit dev.byte off.toNat count.toNat buf }) := by
  unfold pwriteWithLimitOrDie pwriteOrDie
  rw [if_neg (by omega), Int.min_eq_left hle]
  simp only [if_pos ht, Option.bind_eq_bind, Option.bind_some]

theorem BmWriter.Written.put (limit : Int) (hw : w.Written dev0 off W k) (hoff : 0 ≤ off)
    (hroom : off + 8 * (k + 1) ≤ dev0.size)
    (hlimit : off + 8 * (k + 1) ≤ limit) :
    ∃ w', w.put limit (W k) = some (.ok w') ∧ w'.Written dev0 off W (k + 1) := by
  have hi := hw.i
  have hb := hw.bmOnDiskOff
  have hsize : bufferSize = 8 * bufferWords := by decide
  have hpos : 0 < bufferWords := by decide
  have hmod := Nat.mod_lt k hpos
  have hle := Nat.mod_le k bufferWords
  generalize hbm : (fun j => if j = w.i then W k else w.bm j) = bm
  have hword : ∀ j < w.i + 1, bm j = W (k - k % bufferWords + j) := by
    intro j hj
    rw [← hbm]
    by_cases hji : j = w.i
    · simp only [if_pos hji]
      congr 1
      omega
    · simp only [if_neg hji]
      exact hw.bm j (by omega)
  unfold BmWriter.put
  rw [hbm]
  by_cases hfull : w.i + 1 = bufferWords
  · -- the buffer is written
    have hnext : (k + 1) % bufferWords = 0 := by
      rw [← Nat.mod_add_mod, show k % bufferWords + 1 = bufferWords by omega, Nat.mod_self]
    have hwrite : pwriteWithLimitOrDie w.dev (bytesOf bm) bufferSize w.bmOnDiskOff limit = some ((bufferSize : Int),
        { dev0 with byte := blit dev0.byte off.toNat (8 * (k + 1)) (bytesOf W) }) := by
      have hdev : w.dev.size = dev0.size := by rw [hw.dev]
      rw [pwriteWithLimitOrDie_eq (by omega) (by omega) ⟨by omega, by omega, by omega, .inr (by omega)⟩, hw.dev,
        show w.bmOnDiskOff.toNat = off.toNat + 8 * (k - k % bufferWords) by omega, Int.toNat_natCast]
      have hbytes : blit (blit dev0.byte off.toNat (8 * (k - k % bufferWords)) (bytesOf W))
          (off.toNat + 8 * (k - k % bufferWords)) bufferSize (bytesOf bm) =
            blit dev0.byte off.toNat (8 * (k + 1)) (bytesOf W) := by
        rw [blit_blit fun y hy => bytesOf_shift hword (by omega)]
        congr 1
        omega
      simp only [hbytes]
    rw [if_pos hfull, hwrite]
    refine ⟨_, by simp only [Option.bind_eq_bind, Option.bind_some, if_true]; rfl, ?_, ?_, ?_, ?_⟩
    · exact hnext.symm
    · simp only [hnext]
      omega
    · exact fun j hj => absurd hj (Nat.not_lt_zero j)
    · simp only [hnext, Nat.sub_zero]
  · have hnext : (k + 1) % bufferWords = k % bufferWords + 1 := by
      rw [← Nat.mod_add_mod, Nat.mod_eq_of_lt (by omega)]
    rw [if_neg hfull]
    refine ⟨_, rfl, ?_, ?_, ?_, ?_⟩
    · dsimp only
      omega
    · dsimp only
      omega
    · rw [show k + 1 - (k + 1) % bufferWords = k - k % bufferWords by omega]
      exact hword
    · rw [show k + 1 - (k + 1) % bufferWords = k - k % bufferWords by omega]
      exact hw.dev

/-- All words from `k` on go the same way. -/
theorem BmWriter.Written.putAll (limit : Int) (hw : w.Written dev0 off W k) (hoff : 0 ≤ off) {m : Nat}
    (hroom : off + 8 * (k + m : Nat) ≤ dev0.size) (hlimit : off + 8 * (k + m : Nat) ≤ limit) :
    ∃ w', w.putAll limit ((List.range' k m).map W) = some (.ok w') ∧ w'.Written dev0 off W (k + m) := by
  induction m generalizing k w with
  | zero => exact ⟨w, rfl, hw⟩
  | succ m ih =>
      obtain ⟨w1, h1, hw1⟩ := hw.put limit hoff (by omega) (by omega)
      obtain ⟨w', h', hw'⟩ := ih hw1 (by omega) (by omega)
      rw [show k + 1 + m = k + (m + 1) by omega] at hw'
      exact ⟨w', by rw [List.range'_succ, List.map_cons]; exact putAll_cons.2 ⟨w1, h1, h'⟩, hw'⟩

/-- The words and zeros behind them, as bytes. -/
def paddedBytes (W : Nat → Nat) (k : Nat) : Nat → UInt8 := bytesOf fun j => if j < k then W j else 0

end Drbd.Meta
