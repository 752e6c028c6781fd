import Drbd.Meta.Dump
import Drbd.Meta.Lemmas.Layout

/-!
# What the bitmap printer prints

At every turn the printed pieces, and the run that is still open, spell the words before `r`.
-/

namespace Drbd.Meta

open Lib

variable {dev : Device} {off : Int} {hs n : Nat}

/-- The words of the bitmap that begins at `off`. -/
def bmWord (dev : Device) (off : Int) : Nat → Nat := wordsOf fun x => dev.byte (off.toNat + x)

/-- The words that are read: the bitmap, and what fills its last sector. -/
def wordsRead (hs n : Nat) : Nat := align (n * 8) hs / 8

/-- The bitmap of `n` words lies on the device, up to whole sectors. -/
structure BmArea (dev : Device) (hs n : Nat) (off : Int) : Prop where
  sector : hs = 512 ∨ hs = 1024 ∨ hs = 2048 ∨ hs = 4096
  nonneg : 0 ≤ off
  inside : off + align (n * 8) hs ≤ dev.size

theorem align_le (x : Nat) {a : Nat} (ha : 0 < a) : x ≤ align x a := by
  have := Nat.div_add_mod (x + a - 1) a
  have := Nat.mod_lt (x + a - 1) ha
  unfold align
  rw [Nat.mul_comm]
  omega

theorem BmArea.wordsRead_mul (h : BmArea dev hs n off) : wordsRead hs n * 8 = align (n * 8) hs := by
  unfold wordsRead align
  rcases h.sector with rfl | rfl | rfl | rfl <;> omega

theorem BmArea.le_wordsRead (h : BmArea dev hs n off) : n ≤ wordsRead hs n := by
  have := h.wordsRead_mul
  have := align_le (n * 8) (a := hs) (by rcases h.sector with rfl | rfl | rfl | rfl <;> decide)
  omega

/-- What remains to be read behind a whole number of buffers. -/
theorem BmArea.align_rest (h : BmArea dev hs n off) {r : Nat} (hr : r % bufferWords = 0) (hle : r ≤ n) :
    align ((n - r) * 8) hs = (wordsRead hs n - r) * 8 := by
  have hread := h.wordsRead_mul
  unfold bufferWords bufferSize at hr
  unfold align at *
  rcases h.sector with rfl | rfl | rfl | rfl <;> omega

/-! ## The invariant -/

/-- The buffer holds the words around `r`. -/
structure BmPrinter.Buffered (dev : Device) (off : Int) (hs n : Nat) (s : BmPrinter) : Prop where
  le : s.i ≤ s.r
  base : (s.r - s.i) % bufferWords = 0
  word : ∀ k < s.nBuffer, s.bm k = bmWord dev off (s.r - s.i + k)
  nBuffer : s.nBuffer = min bufferWords (wordsRead hs n - (s.r - s.i))
  bmOnDiskOff : s.bmOnDiskOff = off + 8 * (s.r - s.i + s.nBuffer : Nat)

/-- What was printed and what is counted are the words before `r`. -/
def BmPrinter.Covers (dev : Device) (off : Int) (s : BmPrinter) : Prop :=
  spell s.out ++ List.replicate s.count s.cw = (List.range s.r).map (bmWord dev off)

/-- The pieces spell the bitmap, and perhaps some words behind it. -/
def Printed (dev : Device) (off : Int) (hs n : Nat) (ps : List (Piece Nat)) : Prop :=
  ∃ m, n ≤ m ∧ m ≤ wordsRead hs n ∧ spell ps = (List.range m).map (bmWord dev off)

/-- At the label `next`. -/
structure BmPrinter.AtNext (dev : Device) (off : Int) (hs n : Nat) (s : BmPrinter) : Prop where
  covers : s.Covers dev off
  buffered : s.Buffered dev off hs n
  lt : s.r < n
  lt_buffer : s.i < s.nBuffer
  counting : s.count ≠ 0 → s.i % 4 = 0

/-- At the head of the loop: a run is open only when a new buffer is read. -/
structure BmPrinter.AtLoop (dev : Device) (off : Int) (hs n : Nat) (s : BmPrinter) : Prop where
  covers : s.Covers dev off
  le : s.r ≤ n
  counting : s.count ≠ 0 → s.r % bufferWords = 0 ∧ s.r < n
  wrapped : s.r % bufferWords = 0 → s.bmOnDiskOff = off + 8 * s.r
  inside : s.r % bufferWords ≠ 0 → s.Buffered dev off hs n ∧ s.i ≤ s.nBuffer

def BmGoto.Inv (dev : Device) (off : Int) (hs n : Nat) : BmGoto → Prop
  | .loop s => s.AtLoop dev off hs n
  | .next s => s.AtNext dev off hs n ∧ s.count = 0
  | .done s => Printed dev off hs n s.out

/-- The turns that may still be taken. -/
def BmGoto.left (n : Nat) : BmGoto → Nat
  | .loop s => 2 * (n - s.r) + 1
  | .next s => 2 * (n - s.r)
  | .done _ => 0

variable {s : BmPrinter}

theorem BmPrinter.Covers.more (h : s.Covers dev off) {tmp : Nat}
    (hword : ∀ k < tmp, bmWord dev off (s.r + k) = s.cw) :
    spell s.out ++ List.replicate (s.count + tmp) s.cw = (List.range (s.r + tmp)).map (bmWord dev off) := by
  have hrun : (List.range tmp).map (fun k => bmWord dev off (s.r + k)) = List.replicate tmp s.cw := by
    refine List.eq_replicate_iff.2 ⟨by rw [List.length_map, List.length_range], fun v hv => ?_⟩
    obtain ⟨k, hk, rfl⟩ := List.mem_map.1 hv
    exact hword k (List.mem_range.1 hk)
  rw [List.replicate_add, ← List.append_assoc, show _ = _ from h, List.range_add, List.map_append, List.map_map,
    ← hrun]
  rfl

/-- A word that was printed alone. -/
theorem BmPrinter.AtNext.single (hnext : s.AtNext dev off hs n) (hcount : s.count = 0) :
    ∃ lab, s.single = some lab ∧ lab.Inv dev off hs n ∧ lab.left n < 2 * (n - s.r) := by
  have hlt := hnext.lt
  have hbuf := hnext.lt_buffer
  have hle := hnext.buffered.le
  have hbase := hnext.buffered.base
  have hread := hnext.buffered.nBuffer
  have hpos : 0 < bufferWords := by decide
  have hword : s.bm s.i = bmWord dev off s.r := by
    have := hnext.buffered.word s.i hbuf
    rwa [show s.r - s.i + s.i = s.r by omega] at this
  refine ⟨_, if_neg (not_not.2 hbuf), ⟨?_, hlt, fun h => absurd hcount h, fun hwrap => ?_, fun hin => ?_⟩, ?_⟩
  · have hcov := hnext.covers
    unfold BmPrinter.Covers at hcov ⊢
    rw [hcount, List.replicate_zero, List.append_nil] at hcov
    simp only [hcount, List.replicate_zero, List.append_nil, spell_append, hcov, List.range_succ, List.map_append,
      List.map_cons, List.map_nil, hword]
    rfl
  · -- the buffer is used up
    have hoff := hnext.buffered.bmOnDiskOff
    have hlast : s.i + 1 = bufferWords := by
      unfold bufferWords bufferSize at *
      dsimp only at hwrap
      omega
    simp only [hoff]
    omega
  · refine ⟨⟨by dsimp only; omega, ?_, ?_, ?_, ?_⟩, hbuf⟩
    · rw [show s.r + 1 - (s.i + 1) = s.r - s.i by omega]
      exact hbase
    · rw [show s.r + 1 - (s.i + 1) = s.r - s.i by omega]
      exact hnext.buffered.word
    · rw [show s.r + 1 - (s.i + 1) = s.r - s.i by omega]
      exact hread
    · rw [show s.r + 1 - (s.i + 1) = s.r - s.i by omega]
      exact hnext.buffered.bmOnDiskOff
  · dsimp only [BmGoto.left]
    omega

/-- A new word to compare with does not matter while nothing is counted. -/
theorem BmPrinter.AtNext.setCw (hnext : s.AtNext dev off hs n) (hcount : s.count = 0) (v : Nat) :
    BmPrinter.AtNext dev off hs n { s with cw := v } := by
  refine ⟨?_, ⟨hnext.buffered.le, hnext.buffered.base, hnext.buffered.word, hnext.buffered.nBuffer,
    hnext.buffered.bmOnDiskOff⟩, hnext.lt, hnext.lt_buffer, fun h => absurd hcount h⟩
  have hcov := hnext.covers
  unfold BmPrinter.Covers at hcov ⊢
  rw [hcount, List.replicate_zero] at hcov
  simpa only [hcount, List.replicate_zero] using hcov

/-- The words of a run, and where it ends. -/
theorem BmPrinter.AtNext.run (hnext : s.AtNext dev off hs n) (h4 : s.i % 4 = 0) :
    s.i ≤ s.runEnd ∧ s.runEnd ≤ s.nBuffer ∧ ∀ k < s.runEnd - s.i, bmWord dev off (s.r + k) = s.cw := by
  have hle := hnext.buffered.le
  have hbuf := hnext.lt_buffer
  have hlen := runLength_le s.bm s.cw (s.nBuffer - s.i) s.i
  unfold BmPrinter.runEnd
  refine ⟨by omega, by omega, fun k hk => ?_⟩
  have hsame : s.bm (s.i + k) = s.cw :=
    eq_of_lt_runLength (n := s.nBuffer - s.i) (f := s.bm) (v := s.cw) (i := s.i) (by omega)
  rw [hnext.buffered.word _ (by omega)] at hsame
  rwa [show s.r - s.i + (s.i + k) = s.r + k by omega] at hsame

/-- A run that was found is counted; at the end of the buffer it stays open, else it is printed. -/
theorem BmPrinter.AtNext.countRun (hnext : s.AtNext dev off hs n) (hread : n ≤ wordsRead hs n) (h4 : s.i % 4 = 0)
    (hrun : 4 < s.runEnd - s.i) :
    ∃ lab, s.encode n = some lab ∧ lab.Inv dev off hs n ∧ lab.left n < 2 * (n - s.r) := by
  obtain ⟨hj, hjn, hword⟩ := hnext.run h4
  have hlt := hnext.lt
  have hle := hnext.buffered.le
  have hbase := hnext.buffered.base
  have hnb := hnext.buffered.nBuffer
  have hcov := hnext.covers.more hword
  unfold BmPrinter.encode
  simp only [if_pos h4, gt_iff_lt, hrun, if_true, true_and]
  by_cases hwrap : s.runEnd = s.nBuffer ∧ s.r + (s.runEnd - s.i) < n
  · -- the words go on behind a full buffer
    rw [if_pos hwrap]
    have hfull : (s.r + (s.runEnd - s.i)) % bufferWords = 0 := by
      unfold bufferWords bufferSize at *
      omega
    refine ⟨_, rfl, ⟨hcov, by dsimp only; omega, fun _ => ⟨hfull, hwrap.2⟩, fun _ => ?_, fun h => absurd hfull h⟩, ?_⟩
    · have hoff := hnext.buffered.bmOnDiskOff
      dsimp only
      omega
    · dsimp only [BmGoto.left]
      omega
  · rw [if_neg hwrap, if_pos (by omega)]
    have hcov' : spell (s.out ++ [.run (s.count + (s.runEnd - s.i)) s.cw]) =
        (List.range (s.r + (s.runEnd - s.i))).map (bmWord dev off) := by
      rw [← hcov, spell_append]
      simp only [spell_cons, spell_nil, List.append_nil, Piece.spell]
    by_cases hend : n ≤ s.r + (s.runEnd - s.i)
    · rw [if_pos hend]
      exact ⟨_, rfl, ⟨_, hend, by omega, hcov'⟩, by dsimp only [BmGoto.left]; omega⟩
    · rw [if_neg hend]
      refine ⟨_, rfl, ⟨⟨?_, ⟨?_, ?_, ?_, ?_, ?_⟩, by dsimp only; omega, by dsimp only; omega,
        fun h => absurd rfl h⟩, rfl⟩, ?_⟩
      · unfold BmPrinter.Covers
        simpa only [List.replicate_zero, List.append_nil] using hcov'
      · dsimp only
        omega
      all_goals dsimp only [BmGoto.left]; try rw [show s.r + (s.runEnd - s.i) - s.runEnd = s.r - s.i by omega]
      · exact hbase
      · exact hnext.buffered.word
      · exact hnb
      · exact hnext.buffered.bmOnDiskOff
      · omega

/-- The lines behind `cw = bm[i]`: unless a run is only closed, words get printed or counted. -/
theorem BmPrinter.AtNext.encode (hnext : s.AtNext dev off hs n) (hread : n ≤ wordsRead hs n) :
    ∃ lab, s.encode n = some lab ∧ lab.Inv dev off hs n ∧
      lab.left n < 2 * (n - s.r) + if s.count = 0 then 0 else 1 := by
  have hlt := hnext.lt
  by_cases h4 : s.i % 4 = 0
  · by_cases hrun : 4 < s.runEnd - s.i
    · obtain ⟨lab, hlab, hinv, hleft⟩ := hnext.countRun hread h4 hrun
      exact ⟨lab, hlab, hinv, by omega⟩
    · unfold BmPrinter.encode
      simp only [if_pos h4, gt_iff_lt, hrun, false_and, if_false]
      by_cases hcount : s.count = 0
      · rw [if_neg (not_not.2 hcount), if_pos hcount]
        exact hnext.single hcount
      · -- the run ended with the last buffer
        rw [if_pos hcount, if_neg (by omega), if_neg hcount]
        refine ⟨_, rfl, ⟨⟨?_, ⟨hnext.buffered.le, hnext.buffered.base, hnext.buffered.word, hnext.buffered.nBuffer,
          hnext.buffered.bmOnDiskOff⟩, hlt, hnext.lt_buffer, fun h => absurd rfl h⟩, rfl⟩,
          by dsimp only [BmGoto.left]; omega⟩
        have hcov := hnext.covers
        unfold BmPrinter.Covers at hcov ⊢
        simpa only [spell_append, spell_cons, spell_nil, List.append_nil, Piece.spell, List.replicate_zero] using hcov
  · have hcount : s.count = 0 := by
      by_contra h
      exact h4 (hnext.counting h)
    unfold BmPrinter.encode
    rw [if_neg h4, if_pos hcount]
    exact hnext.single hcount

theorem BmPrinter.AtNext.body (hnext : s.AtNext dev off hs n) (hread : n ≤ wordsRead hs n) :
    ∃ lab, s.body n = some lab ∧ lab.Inv dev off hs n ∧ lab.left n < 2 * (n - s.r) + if s.count = 0 then 0 else 1 := by
  unfold BmPrinter.body
  rw [if_neg (not_not.2 hnext.lt_buffer)]
  by_cases hcount : s.count = 0
  · obtain ⟨lab, hlab, hinv, hleft⟩ := (hnext.setCw hcount (s.bm s.i)).encode hread
    exact ⟨lab, by rw [if_pos hcount, hlab], hinv, hleft⟩
  · obtain ⟨lab, hlab, hinv, hleft⟩ := hnext.encode hread
    exact ⟨lab, by rw [if_neg hcount, hlab], hinv, hleft⟩

/-- A new buffer is read where the last one ended. -/
theorem BmPrinter.AtLoop.refill (hloop : s.AtLoop dev off hs n) (harea : BmArea dev hs n off) (hlt : s.r < n) :
    ∃ s', s.refill dev hs n = some s' ∧ s'.AtNext dev off hs n ∧ s'.r = s.r ∧ s'.count = s.count := by
  have hread := harea.le_wordsRead
  have hmul := harea.wordsRead_mul
  have hsize : bufferWords * 8 = bufferSize := by decide
  have hpos : 0 < bufferWords := by decide
  have hmod : s.r * 8 % bufferSize = s.r % bufferWords * 8 := by rw [← hsize, Nat.mul_mod_mul_right]
  unfold BmPrinter.refill
  by_cases hwrap : s.r % bufferWords = 0
  · have hoff := hloop.wrapped hwrap
    have hnonneg := harea.nonneg
    have hinside := harea.inside
    rw [if_pos (by omega), harea.align_rest hwrap hloop.le]
    generalize hchunk : min ((wordsRead hs n - s.r) * 8) bufferSize = chunk
    have hdiv : chunk / 8 = min bufferWords (wordsRead hs n - s.r) := by omega
    have hpread : preadOrDie dev chunk s.bmOnDiskOff = some fun x => dev.byte (s.bmOnDiskOff.toNat + x) :=
      if_pos ⟨by omega, by omega, by omega, .inr (by omega)⟩
    rw [if_neg (by omega), hpread]
    refine ⟨_, rfl, ⟨hloop.covers, ⟨Nat.zero_le _, hwrap, fun k _ => ?_, hdiv, ?_⟩, hlt, ?_, fun _ => rfl⟩, rfl, rfl⟩
    · have hbyte : (fun x => dev.byte (s.bmOnDiskOff.toNat + x)) =
          fun x => dev.byte (off.toNat + (8 * s.r + x)) := by
        funext x
        congr 1
        omega
      dsimp only
      rw [hbyte, Nat.sub_zero]
      exact wordsOf_shift (fun x => dev.byte (off.toNat + x)) s.r k
    · dsimp only
      omega
    · dsimp only
      omega
  · have hin := hloop.inside hwrap
    have hcount : s.count = 0 := by
      by_contra h
      exact hwrap (hloop.counting h).1
    rw [if_neg (by omega)]
    refine ⟨s, rfl, ⟨hloop.covers, hin.1, hlt, ?_, fun h => absurd hcount h⟩, rfl, rfl⟩
    have hle := hin.1.le
    have hbase := hin.1.base
    have hnb := hin.1.nBuffer
    have hi := hin.2
    unfold bufferWords bufferSize at *
    omega

end Drbd.Meta
