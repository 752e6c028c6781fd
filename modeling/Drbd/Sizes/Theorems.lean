import Drbd.Sizes.Defs

/-!
# Both nodes end with the same size
-/

namespace Drbd.Sizes

open State Layout

variable {n n' a b a' b' : Node} {luck luckA luckB : Luck} {p : PSizes}

/-! ## The size a node computes -/

/-- The size before the user's request. -/
def baseSize (pSize mSize laSizeSect : Nat) : Nat :=
  if pSize ≠ 0 ∧ mSize ≠ 0 then min pSize mSize
  else if laSizeSect ≠ 0 then
    let size := if mSize ≠ 0 ∧ mSize < laSizeSect then mSize else laSizeSect
    if pSize ≠ 0 ∧ pSize < size then pSize else size
  else if pSize ≠ 0 then pSize
  else mSize

def clipSize (uSize size : Nat) : Nat := if uSize ≠ 0 ∧ ¬ uSize > size then uSize else size

theorem newDevSize_eq (n : Node) (uSize : Nat) : newDevSize n uSize false =
    clipSize uSize (baseSize n.pSize (getMaxCapacity n.dev n.md) n.md.laSizeSect) := by
  simp [newDevSize, clipSize, baseSize]

theorem clipSize_le (uSize size : Nat) : clipSize uSize size ≤ size := by
  unfold clipSize
  split
  · omega
  · exact Nat.le_refl _

theorem minNotZero_comm (x y : Nat) : minNotZero x y = minNotZero y x := by
  unfold minNotZero
  split <;> split <;> omega

/-- `drbd_get_max_capacity()` once the offsets have been computed anew -/
def Node.newMaxCapacity (n : Node) : Nat := getMaxCapacity n.dev (mdSetSectorOffsets n.dev n.md)

theorem mdSetSectorOffsets_la (dev : Devices) (md : DrbdMd) :
    (mdSetSectorOffsets dev md).laSizeSect = md.laSizeSect := by
  unfold mdSetSectorOffsets
  dsimp only
  split <;> rfl

/-! ## What the receiver does with it -/

/-- The size that both nodes are meant to end with. -/
def agreedSize (a b : Node) : Nat :=
  clipSize (minNotZero a.diskSize b.diskSize) (min (getMaxCapacity b.dev b.md) (getMaxCapacity a.dev a.md))

theorem agreedSize_comm (a b : Node) : agreedSize a b = agreedSize b a := by
  unfold agreedSize
  rw [minNotZero_comm, Nat.min_comm]

/-- The layout is that of the lower level device as it is now, which is not empty. -/
def Node.Steady (n : Node) : Prop :=
  n.newMaxCapacity = getMaxCapacity n.dev n.md ∧ getMaxCapacity n.dev n.md ≠ 0

/-- The device would shrink below a requested size: `drbd_determine_dev_size()` gives
DS_ERROR_SPACE_MD. -/
def NoSpace (a b : Node) : Prop :=
  agreedSize a b < a.md.laSizeSect ∧ minNotZero a.diskSize b.diskSize > agreedSize a b

/-- The peer's disk size is too small. -/
def Refused (a b : Node) : Prop := agreedSize a b < a.capacity ∧ .outdated ≤ a.disk

instance (a b : Node) : Decidable (NoSpace a b) := inferInstanceAs (Decidable (_ ∧ _))
instance (a b : Node) : Decidable (Refused a b) := inferInstanceAs (Decidable (_ ∧ _))

theorem determineDevSize_capacity (hdd : (determineDevSize luck n false).1 ≠ .error) :
    (determineDevSize luck n false).2.capacity =
      (let size := clipSize n.diskSize (baseSize n.pSize n.newMaxCapacity n.md.laSizeSect)
      if size < n.md.laSizeSect ∧ n.diskSize > size then n.capacity else roundCapacity size) ∧
    getMaxCapacity (determineDevSize luck n false).2.dev (determineDevSize luck n false).2.md = n.newMaxCapacity := by
  have hnew : newDevSize { n with md := mdSetSectorOffsets n.dev n.md } n.diskSize false =
      clipSize n.diskSize (baseSize n.pSize n.newMaxCapacity n.md.laSizeSect) := by
    rw [newDevSize_eq]
    simp only [mdSetSectorOffsets_la]
    rfl
  unfold determineDevSize at hdd ⊢
  dsimp only at hdd ⊢
  rw [hnew] at hdd ⊢
  generalize clipSize n.diskSize (baseSize n.pSize n.newMaxCapacity n.md.laSizeSect) = size at hdd ⊢
  split
  · rename_i hbuf
    simp [hbuf] at hdd
  · rename_i hbuf
    simp only [hbuf] at hdd
    split
    · exact ⟨rfl, rfl⟩
    · rename_i hspace
      simp only [if_neg hspace] at hdd
      split
      · rename_i hchange
        simp only [if_pos hchange] at hdd
        split
        · exact ⟨rfl, rfl⟩
        · rename_i hres
          simp [hres] at hdd
      · rename_i hsame
        refine ⟨?_, rfl⟩
        -- nothing to do: the capacity is the size already
        have hcap : n.capacity = size := by
          by_contra hne
          exact hsame (.inl hne)
        have hal := n.capacity_aligned
        change n.capacity = roundCapacity size
        unfold roundCapacity
        omega

theorem takeSizes_eq (hdisk : n.HasDisk) (hconn : n.conn = .wfReportParams) : takeSizes luck n p =
    (if clipSize (minNotZero n.diskSize p.uSize)
        (baseSize n.pSize (getMaxCapacity n.dev n.md) n.md.laSizeSect) < n.capacity ∧ .outdated ≤ n.disk then none
    else if n.diskSize = minNotZero n.diskSize p.uSize ∨ luck.diskConf = true then
      some { n with diskSize := minNotZero n.diskSize p.uSize }
    else none) := by
  have hlt : n.conn < .connected := by
    rw [hconn]
    decide
  unfold takeSizes
  rw [if_pos hdisk, if_pos hconn]
  dsimp only
  simp only [newDevSize_eq, hlt, and_true]
  split
  · rfl
  · by_cases heq : n.diskSize = minNotZero n.diskSize p.uSize
    · rw [if_neg (not_not_intro heq), if_pos (.inl heq), ← heq]
    · simp only [ne_eq, heq, not_false_eq_true, if_true, false_or]

theorem applySize_eq (hdisk : n.HasDisk) : applySize luck n p =
    if (determineDevSize luck n p.ddsfForced).1 = .error then none
    else some (determineDevSize luck n p.ddsfForced).2 := if_pos hdisk

/-- The two outcomes of `receive_sizes()` for a connecting node with a disk. -/
theorem receiveSizes_spec (hdisk : n.HasDisk) (hconn : n.conn = .wfReportParams) (hp : p.ddsfForced = false)
    (h : receiveSizes luck n p = some n') :
    ¬ (clipSize (minNotZero n.diskSize p.uSize) (baseSize p.dSize (getMaxCapacity n.dev n.md) n.md.laSizeSect) <
        n.capacity ∧ .outdated ≤ n.disk) ∧
      n'.capacity =
        (let u := minNotZero n.diskSize p.uSize
        let size := clipSize u (baseSize p.dSize n.newMaxCapacity n.md.laSizeSect)
        if size < n.md.laSizeSect ∧ u > size then n.capacity else roundCapacity size) ∧
      getMaxCapacity n'.dev n'.md = n.newMaxCapacity := by
  simp only [receiveSizes, Option.bind_eq_some_iff] at h
  obtain ⟨n₁, hn₁, h⟩ := h
  have htake := @takeSizes_eq { n with pSize := p.dSize } luck p hdisk hconn
  rw [htake] at hn₁
  split at hn₁
  · simp at hn₁
  · rename_i hrefused
    split at hn₁
    · simp only [Option.some.injEq] at hn₁
      subst hn₁
      have happly := @applySize_eq
        { n with pSize := p.dSize, diskSize := minNotZero n.diskSize p.uSize } luck p hdisk
      rw [happly, hp] at h
      split at h
      · simp at h
      · rename_i hok
        simp only [Option.some.injEq] at h
        subst h
        exact ⟨hrefused, determineDevSize_capacity hok⟩
    · simp at hn₁

theorem determineDevSize_lucky (n : Node) (forced : Bool) :
    (determineDevSize ⟨true, true, true⟩ n forced).1 ≠ .error := by
  unfold determineDevSize
  dsimp only
  simp only [not_true_eq_false, if_false, if_true]
  repeat' split
  all_goals simp

theorem receiveSizes_lucky (hdisk : n.HasDisk) (hconn : n.conn = .wfReportParams)
    (h : ¬ (clipSize (minNotZero n.diskSize p.uSize)
      (baseSize p.dSize (getMaxCapacity n.dev n.md) n.md.laSizeSect) < n.capacity ∧ .outdated ≤ n.disk)) :
    ∃ n', receiveSizes ⟨true, true, true⟩ n p = some n' := by
  have htake := @takeSizes_eq { n with pSize := p.dSize } ⟨true, true, true⟩ p hdisk hconn
  rw [if_neg h, if_pos (.inr rfl)] at htake
  have happly := @applySize_eq
    { n with pSize := p.dSize, diskSize := minNotZero n.diskSize p.uSize } ⟨true, true, true⟩ p hdisk
  rw [if_neg (determineDevSize_lucky _ _)] at happly
  exact ⟨_, by rw [receiveSizes, htake, Option.bind_some, happly]⟩

/-! ## Both nodes -/

theorem sendSizes_of_disk (h : n.HasDisk) :
    sendSizes n false = ⟨getMaxCapacity n.dev n.md, n.diskSize, false⟩ := by
  refine if_pos ?_
  unfold Node.HasDisk at h
  revert h
  cases n.disk <;> decide

/-- What a node makes of the agreed size. -/
def finalCapacity (a b : Node) : Nat := if NoSpace a b then a.capacity else roundCapacity (agreedSize a b)

/-- The handling of the peer's sizes by a node whose layout has not moved. -/
theorem receive_steady (ha : a.HasDisk) (hb : b.HasDisk) (hconn : a.conn = .wfReportParams) (hsa : a.Steady)
    (hsb : b.Steady) (h : receiveSizes luck a (sendSizes b false) = some a') :
    ¬ Refused a b ∧ a'.capacity = finalCapacity a b ∧ getMaxCapacity a'.dev a'.md = getMaxCapacity a.dev a.md := by
  rw [sendSizes_of_disk hb] at h
  obtain ⟨hr, hcap, hmax⟩ := receiveSizes_spec ha hconn rfl h
  have hbase : baseSize (getMaxCapacity b.dev b.md) (getMaxCapacity a.dev a.md) a.md.laSizeSect =
      min (getMaxCapacity b.dev b.md) (getMaxCapacity a.dev a.md) := if_pos ⟨hsb.2, hsa.2⟩
  rw [hsa.1] at hcap hmax
  simp only [hbase] at hr hcap
  exact ⟨hr, hcap, hmax⟩

theorem receive_steady_lucky (ha : a.HasDisk) (hb : b.HasDisk) (hconn : a.conn = .wfReportParams) (hsa : a.Steady)
    (hsb : b.Steady) (hr : ¬ Refused a b) :
    ∃ a', receiveSizes ⟨true, true, true⟩ a (sendSizes b false) = some a' := by
  have hbase : baseSize (getMaxCapacity b.dev b.md) (getMaxCapacity a.dev a.md) a.md.laSizeSect =
      min (getMaxCapacity b.dev b.md) (getMaxCapacity a.dev a.md) := if_pos ⟨hsb.2, hsa.2⟩
  rw [sendSizes_of_disk hb]
  refine receiveSizes_lucky ha hconn ?_
  simp only [hbase]
  exact hr

theorem agreedSize_le (a b : Node) :
    agreedSize a b ≤ getMaxCapacity a.dev a.md ∧ agreedSize a b ≤ getMaxCapacity b.dev b.md := by
  have h := clipSize_le (minNotZero a.diskSize b.diskSize) (min (getMaxCapacity b.dev b.md) (getMaxCapacity a.dev a.md))
  unfold agreedSize
  omega

theorem roundCapacity_le (size : Nat) : roundCapacity size ≤ size := Nat.sub_le _ _

/-- A capacity that is not above the size is not above the rounded size either. -/
theorem le_roundCapacity {c size : Nat} (hal : c % 2 ^ 15 = 0) (h : c ≤ size) : c ≤ roundCapacity size := by
  unfold roundCapacity
  omega

theorem kept_of_not_refused (hr : ¬ Refused a b) (hdisk : .outdated ≤ a.disk) : a.capacity ≤ finalCapacity a b := by
  unfold finalCapacity
  split
  · exact Nat.le_refl _
  · refine le_roundCapacity a.capacity_aligned ?_
    by_contra hlt
    exact hr ⟨by omega, hdisk⟩

theorem exchange_cases (h : Connecting a b) (hsa : a.Steady) (hsb : b.Steady)
    (hex : exchange luckA luckB a b = some (a', b')) :
    (¬ Refused a b ∧ a'.capacity = finalCapacity a b ∧ getMaxCapacity a'.dev a'.md = getMaxCapacity a.dev a.md) ∧
      (¬ Refused b a ∧ b'.capacity = finalCapacity b a ∧ getMaxCapacity b'.dev b'.md = getMaxCapacity b.dev b.md) := by
  simp only [exchange, Option.bind_eq_bind, Option.bind_eq_some_iff, Option.some.injEq, Prod.mk.injEq] at hex
  obtain ⟨a₁, ha₁, b₁, hb₁, rfl, rfl⟩ := hex
  exact ⟨receive_steady h.diskA h.diskB h.connA hsa hsb ha₁, receive_steady h.diskB h.diskA h.connB hsb hsa hb₁⟩

theorem exchange_lucky (h : Connecting a b) (hsa : a.Steady) (hsb : b.Steady) (hra : ¬ Refused a b)
    (hrb : ¬ Refused b a) : ∃ a' b', exchange ⟨true, true, true⟩ ⟨true, true, true⟩ a b = some (a', b') := by
  obtain ⟨a', ha'⟩ := receive_steady_lucky h.diskA h.diskB h.connA hsa hsb hra
  obtain ⟨b', hb'⟩ := receive_steady_lucky h.diskB h.diskA h.connB hsb hsa hrb
  exact ⟨a', b', by simp [exchange, ha', hb']⟩

/-- A refused shrink is harmless if the capacity is that of the agreed size already. -/
def Harmless (a b : Node) : Prop := NoSpace a b → a.capacity = roundCapacity (agreedSize a b)

theorem Harmless.finalCapacity (h : Harmless a b) : finalCapacity a b = roundCapacity (agreedSize a b) := by
  unfold Sizes.finalCapacity
  split
  · rename_i hn
    exact h hn
  · rfl

theorem agreed_of_harmless (h : Connecting a b) (hsa : a.Steady) (hsb : b.Steady) (ha : Harmless a b)
    (hb : Harmless b a) (hex : exchange luckA luckB a b = some (a', b')) : Agreed a b a' b' := by
  obtain ⟨⟨hra, hca, hma⟩, hrb, hcb, hmb⟩ := exchange_cases h hsa hsb hex
  have hle := agreedSize_le a b
  have hround := roundCapacity_le (agreedSize a b)
  refine ⟨?_, ?_, ?_, fun hd => ?_, fun hd => ?_⟩
  · rw [hca, hcb, ha.finalCapacity, hb.finalCapacity, agreedSize_comm]
  · rw [hca, hma, ha.finalCapacity]
    omega
  · rw [hca, hmb, ha.finalCapacity]
    omega
  · rw [hca]
    exact kept_of_not_refused hra hd
  · rw [hcb]
    exact kept_of_not_refused hrb hd

/-- What does not fit is above the smaller of the two capacities. -/
theorem NoSpace.agreedSize (h : NoSpace a b) :
    agreedSize a b = min (getMaxCapacity b.dev b.md) (getMaxCapacity a.dev a.md) := by
  have hu := h.2
  unfold Sizes.agreedSize clipSize at hu ⊢
  split
  · rename_i hc
    rw [if_pos hc] at hu
    omega
  · rfl

theorem harmless_of_le (hla : a.capacity = roundCapacity a.md.laSizeSect)
    (hle : NoSpace a b → a.capacity ≤ getMaxCapacity a.dev a.md ∧ a.capacity ≤ getMaxCapacity b.dev b.md) :
    Harmless a b := by
  intro hn
  obtain ⟨hla', hlb⟩ := hle hn
  have hup : a.capacity ≤ roundCapacity (agreedSize a b) := by
    refine le_roundCapacity a.capacity_aligned ?_
    rw [hn.agreedSize]
    omega
  have hlow : roundCapacity (agreedSize a b) ≤ roundCapacity a.md.laSizeSect := by
    have hlt := hn.1
    unfold roundCapacity
    omega
  omega

/-- Two nodes agree if their lower level devices have the size their layouts were computed for, and a
size that one of them cannot apply is the one it has already. If the capacity of the nodes is that of
their last agreed sizes, they do not agree otherwise, unless one refuses the other's size. -/
theorem sizes_agree (h : Connecting a b) (hsa : a.Steady) (hsb : b.Steady) :
    (Harmless a b ∧ Harmless b a →
      ∀ luckA luckB a' b', exchange luckA luckB a b = some (a', b') → Agreed a b a' b') ∧
    (a.capacity = roundCapacity a.md.laSizeSect → b.capacity = roundCapacity b.md.laSizeSect →
      ((∀ luckA luckB a' b', exchange luckA luckB a b = some (a', b') → Agreed a b a' b') ↔
        Refused a b ∨ Refused b a ∨ (Harmless a b ∧ Harmless b a))) := by
  have henough : Harmless a b ∧ Harmless b a →
      ∀ luckA luckB a' b', exchange luckA luckB a b = some (a', b') → Agreed a b a' b' :=
    fun ⟨ha, hb⟩ _ _ _ _ hex => agreed_of_harmless h hsa hsb ha hb hex
  refine ⟨henough, fun hla hlb => ⟨fun hall => ?_, fun hc => ?_⟩⟩
  · by_cases hra : Refused a b
    · exact .inl hra
    · by_cases hrb : Refused b a
      · exact .inr (.inl hrb)
      · obtain ⟨a', b', hex⟩ := exchange_lucky h hsa hsb hra hrb
        obtain ⟨⟨-, hca, hma⟩, -, hcb, hmb⟩ := exchange_cases h hsa hsb hex
        have hag := hall _ _ _ _ hex
        have hleA := hag.leA
        have hleB := hag.leB
        refine .inr (.inr ⟨harmless_of_le hla (fun hn => ?_), harmless_of_le hlb (fun hn => ?_)⟩)
        · have hfin : finalCapacity a b = a.capacity := if_pos hn
          omega
        · have hfin : finalCapacity b a = b.capacity := if_pos hn
          have hsame := hag.capacity
          omega
  · intro luckA luckB a' b' hex
    obtain ⟨⟨hra, -, -⟩, hrb, -, -⟩ := exchange_cases h hsa hsb hex
    obtain hc | hc | hc := hc
    · exact absurd hc hra
    · exact absurd hc hrb
    · exact henough hc luckA luckB a' b' hex

/-! ## A larger request than the peer can hold -/

def indexedDevices (backing : Nat) (h : backing < 2 ^ 54) : Devices :=
  ⟨.index 0, backing, 2 ^ 18, h, by decide, fun hi => hi.elim⟩

def indexedMd (la : Nat) : DrbdMd := ⟨0, la, 2 ^ 18, 8, 72, 1, 8, 8⟩

/-- An empty disk of 100 times 16 MB of which the user wants 80. -/
def requesting : Node where
  dev := indexedDevices (100 * 2 ^ 15) (by decide)
  md := indexedMd (80 * 2 ^ 15)
  diskSize := 80 * 2 ^ 15
  capacity := 80 * 2 ^ 15
  bmCapacity := 80 * 2 ^ 15
  pSize := 0
  conn := .wfReportParams
  disk := .inconsistent
  capacity_aligned := by decide

/-- A disk of 50 times 16 MB with good data. -/
def smaller : Node where
  dev := indexedDevices (50 * 2 ^ 15) (by decide)
  md := indexedMd (50 * 2 ^ 15)
  diskSize := 0
  capacity := 50 * 2 ^ 15
  bmCapacity := 50 * 2 ^ 15
  pSize := 0
  conn := .wfReportParams
  disk := .upToDate
  capacity_aligned := by decide

theorem sizes_differ : Connecting requesting smaller ∧
    ∃ a' b', exchange ⟨true, true, true⟩ ⟨true, true, true⟩ requesting smaller = some (a', b') ∧
      a'.capacity = 80 * 2 ^ 15 ∧ b'.capacity = 50 * 2 ^ 15 ∧ ¬ Agreed requesting smaller a' b' := by
  refine ⟨⟨by decide, by decide, rfl, rfl⟩, _, _, rfl, by decide, by decide, fun h => ?_⟩
  exact absurd h.capacity (by decide)

/-- A new disk of 100 times 16 MB. -/
def blank : Node where
  dev := indexedDevices (100 * 2 ^ 15) (by decide)
  md := indexedMd 0
  diskSize := 0
  capacity := 0
  bmCapacity := 0
  pSize := 0
  conn := .wfReportParams
  disk := .inconsistent
  capacity_aligned := by decide

theorem sizes_agree_blank :
    ∃ a' b', exchange ⟨true, true, true⟩ ⟨true, true, true⟩ blank smaller = some (a', b') ∧
      a'.capacity = 50 * 2 ^ 15 ∧ Agreed blank smaller a' b' := by
  refine ⟨_, _, rfl, by decide, ?_⟩
  have hsteady := sizes_agree (show Connecting blank smaller from ⟨by decide, by decide, rfl, rfl⟩)
    ⟨by decide, by decide⟩ ⟨by decide, by decide⟩
  refine hsteady.1 ⟨?_, ?_⟩ ⟨true, true, true⟩ ⟨true, true, true⟩ _ _ rfl
  · exact fun hn => absurd hn (by decide)
  · exact fun hn => absurd hn (by decide)

end Drbd.Sizes
