import Drbd.AsyncSync.Lemmas.Caches

/-!
# Everything is given back

Who holds what, in each phase of a request. As long as no step meets one of the cases in which something
is forgotten, the counters are at every moment what they were, and what the requests under way hold.
-/

namespace Drbd.AsyncSync

open Lru Noblock Lib

/-! ## Counters and holdings -/

inductive Counter
  | ldev
  | unacked
  | resync (enr : Nat)
  | noblock (enr : Nat)

/-- It is not the label of a free element. -/
def Counter.Real : Counter → Prop
  | .ldev => True
  | .unacked => True
  | .resync enr => enr ≠ LC_FREE
  | .noblock enr => enr ≠ LC_FREE

def Device.count (d : Device) : Counter → Nat
  | .ldev => d.localCnt
  | .unacked => d.unackedCnt
  | .resync enr => refs d.resync enr
  | .noblock enr => refs d.lruNoblock enr

structure Holding where
  ldev : Bool
  unacked : Bool
  resync : Option Range
  noblock : Option Range

def Holding.count (h : Holding) : Counter → Nat
  | .ldev => h.ldev.toNat
  | .unacked => h.unacked.toNat
  | .resync enr =>
      match h.resync with
      | none => 0
      | some r => if bmSectToExt r.sector = enr then 1 else 0
  | .noblock enr =>
      match h.noblock with
      | none => 0
      | some r => if enr ∈ extents r.sector r.size then 1 else 0

def Sender.holding : Sender → Holding
  | .idle => ⟨false, false, none, none⟩
  | .scanning => ⟨true, false, none, none⟩
  | .allocated _ => ⟨true, false, none, none⟩
  | .locking r _ => ⟨true, false, some r, none⟩
  | .begun r => ⟨true, false, some r, none⟩
  | .counted r => ⟨true, true, some r, none⟩
  | .filled r => ⟨true, true, some r, some r⟩

def PeerReq.holding (q : PeerReq) : Holding :=
  match q.phase with
  | .reading => ⟨true, true, some q.range, some q.range⟩
  | .read _ => ⟨false, true, some q.range, some q.range⟩
  | .sent => ⟨false, false, none, some q.range⟩

/-- What the sender and the requests under way hold together. -/
def State.held (s : State) (c : Counter) : Nat :=
  s.sender.holding.count c + (s.flights.map fun q => q.holding.count c).sum

def State.Quiet (s : State) : Prop := s.sender = .idle ∧ s.flights = []

theorem State.Quiet.held {s : State} (h : s.Quiet) (c : Counter) : s.held c = 0 := by
  unfold State.held
  rw [h.1, h.2]
  cases c <;> rfl

/-! ## Labels -/

theorem Range.sector_lt (r : Range) : r.sector < 2 ^ 42 := by
  have := r.nonempty
  have := r.inside
  omega

theorem Range.resync_real (r : Range) : bmSectToExt r.sector ≠ LC_FREE := by
  have := r.sector_lt
  rw [bmSectToExt, Nat.shiftRight_eq_div_pow, LC_FREE]
  omega

theorem Range.noblock_real (r : Range) : ∀ x ∈ extents r.sector r.size, x ≠ LC_FREE := by
  intro x hx
  have hsize := r.nonempty
  have hin := r.inside
  unfold extents at hx
  obtain ⟨k, hk, rfl⟩ := List.mem_range'.1 hx
  have hlast : lastSector r.sector r.size ≤ 2 ^ 42 := by
    unfold lastSector
    split <;> omega
  unfold LC_FREE
  omega

/-! ## Single functions -/

structure Device.Ok (d : Device) : Prop where
  resync : Settled d.resync
  noblock : NoblockOk d.lruNoblock

/-- `d'` has given back what `h` counts. -/
def Gives (d d' : Device) (h : Holding) : Prop := ∀ c, c.Real → d'.count c + h.count c = d.count c

variable {d d' : Device} {r : Range}

theorem Gives.noblock {d'' : Device} {ldev unacked : Bool} {resync : Option Range}
    (h : Gives d d' ⟨ldev, unacked, resync, none⟩) (h' : Gives d' d'' ⟨false, false, none, some r⟩) :
    Gives d d'' ⟨ldev, unacked, resync, some r⟩ := by
  intro c hc
  have h₁ := h c hc
  have h₂ := h' c hc
  cases c <;> simp only [Holding.count, Bool.toNat_false, Nat.add_zero] at h₁ h₂ ⊢ <;> omega

theorem noblockBeginIo_takes (hok : d.Ok) (hroom : Room d.lruNoblock (extents r.sector r.size))
    (h : d.noblockBeginIo r = some d') :
    d'.Ok ∧ d'.resync = d.resync ∧ Gives d' d ⟨false, false, none, some r⟩ := by
  obtain ⟨⟨lc, ok⟩, hio, rfl⟩ := Option.map_eq_some_iff.1 h
  obtain ⟨hlc, hrefs⟩ := hok.noblock.beginIo r.noblock_real (extents_nodup _ _) hroom hio
  refine ⟨⟨hok.resync, hlc⟩, rfl, fun c hc => ?_⟩
  cases c with
  | noblock enr => exact (hrefs enr hc).symm
  | ldev => rfl
  | unacked => rfl
  | resync enr => rfl

theorem noblockCompleateIo_gives (hok : d.Ok) (hheld : ∀ x ∈ extents r.sector r.size, 0 < refs d.lruNoblock x)
    (h : d.noblockCompleateIo r = some d') :
    d'.Ok ∧ d'.resync = d.resync ∧ Gives d d' ⟨false, false, none, some r⟩ := by
  obtain ⟨⟨lc, ok⟩, hio, rfl⟩ := Option.map_eq_some_iff.1 h
  obtain ⟨hlc, hrefs⟩ := hok.noblock.compleateIo r.noblock_real (extents_nodup _ _) hheld hio
  refine ⟨⟨hok.resync, hlc⟩, rfl, fun c hc => ?_⟩
  cases c with
  | noblock enr => exact hrefs enr hc
  | ldev => rfl
  | unacked => rfl
  | resync enr => rfl

theorem rsCompleteIo_gives (hok : d.Ok) (hheld : 0 < refs d.resync (bmSectToExt r.sector))
    (h : d.rsCompleteIo r = some d') :
    d'.Ok ∧ (∀ j, (d'.resync.lcElement j).lcNewNumber = (d.resync.lcElement j).lcNewNumber) ∧
      Gives d d' ⟨false, false, some r, none⟩ := by
  obtain ⟨lc, hio, rfl⟩ := Option.map_eq_some_iff.1 h
  obtain ⟨hlc, hlabels, hself, hothers⟩ := drbdRsCompleteIo_refs hok.resync r.resync_real hheld hio
  refine ⟨⟨hlc, hok.noblock⟩, hlabels, fun c hc => ?_⟩
  cases c with
  | resync enr =>
      simp only [Device.count, Holding.count]
      split
      · rename_i heq
        rw [← heq]
        exact hself
      · rename_i hne
        exact hothers enr hc fun heq => hne heq.symm
  | ldev => rfl
  | unacked => rfl
  | noblock enr => rfl

/-! ## When nothing is forgotten -/

/-- The last lines of `w_e_end_rsdata_req` give the extents of `lru_noblock` back. -/
def WorkInput.FailsUnderS (w : WorkInput) : Prop := w.sendFails = true ∧ w.netConfAfter = .protocolS

/-- The request is not cancelled, the disk is there, no snapshot sync is running, and either the data go out
or what happens instead gives the extents of `lru_noblock` back. -/
def WorkInput.Releases (w : WorkInput) (wasError : Bool) : Prop :=
  w.cancel = false ∧ w.ldev = true ∧ w.snapshot = false ∧
    if w.ahead = true then w.FailsUnderS
    else if wasError = true then w.netConf ≠ .other ∨ w.FailsUnderS
    else w.pdsk = true ∧ (w.sendFails = false ∨ w.FailsUnderS)

def AckInput.Releases (a : AckInput) : Prop := a.ldev = true ∧ a.snapshot = false ∧ a.netConf = .protocolS

def Phase.Releases (w : WorkInput) : Phase → Prop
  | .read wasError => w.Releases wasError
  | .reading => True
  | .sent => True

/-- There are enough elements for the request the sender is about to enter. -/
def Sender.HasRoom (lc : LruCache) : Sender → Prop
  | .counted r => Room lc (extents r.sector r.size)
  | .idle => True
  | .scanning => True
  | .allocated _ => True
  | .locking _ _ => True
  | .begun _ => True
  | .filled _ => True

/-- No step of the run forgets anything. -/
def Cond (s : State) : Event → Prop
  | .noblockBeginIo => s.sender.HasRoom s.device.lruNoblock
  | .submit ok => ok = true
  | .work q w => q.phase.Releases w
  | .blockAck _ a => a.Releases
  | .negAck _ => False
  | _ => True

instance (w : WorkInput) : Decidable w.FailsUnderS := inferInstanceAs (Decidable (_ ∧ _))

instance (w : WorkInput) (wasError : Bool) : Decidable (w.Releases wasError) := by
  unfold WorkInput.Releases
  infer_instance

instance (a : AckInput) : Decidable a.Releases := inferInstanceAs (Decidable (_ ∧ _ ∧ _))

instance (w : WorkInput) : (phase : Phase) → Decidable (phase.Releases w)
  | .read wasError => inferInstanceAs (Decidable (w.Releases wasError))
  | .reading | .sent => inferInstanceAs (Decidable True)

instance (lc : LruCache) (xs : List Nat) : Decidable (Room lc xs) := inferInstanceAs (Decidable (_ ∧ _))

instance (lc : LruCache) : (sender : Sender) → Decidable (sender.HasRoom lc)
  | .counted r => inferInstanceAs (Decidable (Room lc (extents r.sector r.size)))
  | .idle | .scanning | .allocated _ | .locking _ _ | .begun _ | .filled _ => inferInstanceAs (Decidable True)

instance (s : State) : (e : Event) → Decidable (Cond s e)
  | .noblockBeginIo => inferInstanceAs (Decidable (s.sender.HasRoom s.device.lruNoblock))
  | .submit ok => inferInstanceAs (Decidable (ok = true))
  | .work q w => inferInstanceAs (Decidable (q.phase.Releases w))
  | .blockAck _ a => inferInstanceAs (Decidable a.Releases)
  | .negAck _ => inferInstanceAs (Decidable False)
  | .getLdev _ | .leave | .alloc _ _ | .rsWait | .rsGet | .rsLocked | .rsStepAside | .rsInterrupted | .incUnacked
  | .endio _ _ => inferInstanceAs (Decidable True)

theorem rsdataReply_gives {wasError err sent : Bool} {w : WorkInput} (hok : d.Ok)
    (hheld : ∀ x ∈ extents r.sector r.size, 0 < refs d.lruNoblock x) (hw : w.Releases wasError)
    (h : rsdataReply d r wasError w = some (d', err, sent)) :
    d'.Ok ∧ d'.resync = d.resync ∧
      (Gives d d' ⟨false, false, none, some r⟩ ∧ ¬ (err = true ∧ w.netConfAfter = .protocolS) ∧ sent = false ∨
        d' = d ∧ (err = true ∧ w.netConfAfter = .protocolS) ∧ sent = false ∨
        d' = d ∧ ¬ (err = true ∧ w.netConfAfter = .protocolS) ∧ sent = true) := by
  obtain ⟨_, _, _, hlast⟩ := hw
  unfold rsdataReply at h
  cases hahead : w.ahead with
  | true =>
      rw [hahead] at h hlast
      cases h
      exact ⟨hok, rfl, .inr (.inl ⟨rfl, hlast, rfl⟩)⟩
  | false =>
      rw [hahead] at h hlast
      rw [if_neg (by decide)] at h hlast
      cases wasError with
      | true =>
          rw [if_neg (by decide)] at h
          rw [if_pos rfl] at hlast
          split at h
          · rename_i hother
            cases h
            exact ⟨hok, rfl, .inr (.inl ⟨rfl, hlast.resolve_left (not_not.2 hother), rfl⟩)⟩
          · obtain ⟨d₁, hio, heq⟩ := Option.map_eq_some_iff.1 h
            cases heq
            obtain ⟨hok', hsame, hgives⟩ := noblockCompleateIo_gives hok hheld hio
            exact ⟨hok', hsame, .inl ⟨hgives, by simp, rfl⟩⟩
      | false =>
          rw [if_pos (by decide)] at h
          rw [if_neg (by decide)] at hlast
          rw [hlast.1] at h
          cases h
          rcases hlast.2 with hsent | hfails
          · rw [hsent]
            exact ⟨hok, rfl, .inr (.inr ⟨rfl, by simp, rfl⟩)⟩
          · refine ⟨hok, rfl, .inr (.inl ⟨rfl, hfails, ?_⟩)⟩
            rw [hfails.1]
            rfl

theorem wEEndRsdataReq_gives {wasError sent : Bool} {w : WorkInput} (hok : d.Ok) (hunacked : 0 < d.unackedCnt)
    (hresync : 0 < refs d.resync (bmSectToExt r.sector))
    (hnoblock : ∀ x ∈ extents r.sector r.size, 0 < refs d.lruNoblock x) (hw : w.Releases wasError)
    (h : wEEndRsdataReq d r wasError w = some (d', sent)) :
    d'.Ok ∧ (∀ j, (d'.resync.lcElement j).lcNewNumber = (d.resync.lcElement j).lcNewNumber) ∧
      Gives d d' ⟨false, true, some r, if sent then none else some r⟩ := by
  unfold wEEndRsdataReq at h
  rw [hw.1, hw.2.1, hw.2.2.1] at h
  simp only [Bool.false_eq_true, if_false, Bool.not_true] at h
  obtain ⟨d₁, hextent, h⟩ := Option.bind_eq_some_iff.1 h
  obtain ⟨⟨d₂, err, sent'⟩, hreply, h⟩ := Option.bind_eq_some_iff.1 h
  obtain ⟨d₀, hcomplete, rfl⟩ := Option.map_eq_some_iff.1 hextent
  obtain ⟨hok₀, hlabels, hgives₀⟩ := rsCompleteIo_gives (d := d.getLdev) ⟨hok.resync, hok.noblock⟩ hresync hcomplete
  have hnoblock₀ : ∀ x ∈ extents r.sector r.size, 0 < refs d₀.putLdev.lruNoblock x := fun x hx => by
    have := hgives₀ (.noblock x) (r.noblock_real x hx)
    have hheld := hnoblock x hx
    simp only [Device.count, Holding.count, Device.getLdev, Nat.add_zero] at this
    show 0 < refs d₀.lruNoblock x
    omega
  obtain ⟨hok₂, hsame, hcases⟩ := rsdataReply_gives (d := d₀.putLdev) ⟨hok₀.resync, hok₀.noblock⟩ hnoblock₀ hw hreply
  have hlabels₂ : ∀ j, (d₂.resync.lcElement j).lcNewNumber = (d.resync.lcElement j).lcNewNumber := fun j => by
    rw [hsame]
    exact hlabels j
  -- what has been given back besides the extents of `lru_noblock`
  have hrest : ∀ {d₃ : Device} (noblock : Option Range), Gives d₀.putLdev d₃ ⟨false, false, none, noblock⟩ →
      Gives d d₃.decUnacked ⟨false, true, some r, noblock⟩ := fun {d₃} noblock hgives c hc => by
    have h₀ := hgives₀ c hc
    have h₃ := hgives c hc
    cases c with
    | ldev =>
        simp only [Device.count, Holding.count, Device.getLdev, Device.putLdev, Device.decUnacked, Bool.toNat_false]
          at h₀ h₃ ⊢
        omega
    | unacked =>
        simp only [Device.count, Holding.count, Device.getLdev, Device.putLdev, Device.decUnacked, Bool.toNat_false,
          Bool.toNat_true] at h₀ h₃ ⊢
        omega
    | resync enr =>
        simp only [Device.count, Holding.count, Device.getLdev, Device.putLdev, Device.decUnacked] at h₀ h₃ ⊢
        omega
    | noblock enr =>
        simp only [Device.count, Holding.count, Device.getLdev, Device.putLdev, Device.decUnacked] at h₀ h₃ ⊢
        omega
  rcases hcases with ⟨hgives, hno, rfl⟩ | ⟨rfl, hyes, rfl⟩ | ⟨rfl, hno, rfl⟩
  · rw [if_neg hno] at h
    cases h
    exact ⟨⟨hok₂.resync, hok₂.noblock⟩, hlabels₂, hrest _ hgives⟩
  · rw [if_pos hyes] at h
    obtain ⟨d₃, hio, heq⟩ := Option.map_eq_some_iff.1 h
    cases heq
    obtain ⟨hok₃, hsame₃, hgives₃⟩ := noblockCompleateIo_gives (d := d₀.putLdev.decUnacked)
      ⟨hok₀.resync, hok₀.noblock⟩ hnoblock₀ hio
    refine ⟨hok₃, fun j => by rw [hsame₃]; exact hlabels j, ?_⟩
    exact (hrest none fun c _ => by cases c <;> rfl).noblock hgives₃
  · rw [if_neg hno] at h
    cases h
    exact ⟨⟨hok₂.resync, hok₂.noblock⟩, hlabels₂, hrest _ fun c _ => by cases c <;> rfl⟩

theorem gotBlockAck_gives {a : AckInput} (hok : d.Ok)
    (hheld : ∀ x ∈ extents r.sector r.size, 0 < refs d.lruNoblock x) (ha : a.Releases)
    (h : gotBlockAck d r a = some d') :
    d'.Ok ∧ d'.resync = d.resync ∧ Gives d d' ⟨false, false, none, some r⟩ := by
  unfold gotBlockAck at h
  rw [ha.1, ha.2.1, ha.2.2] at h
  simp only [Bool.not_true, Bool.false_eq_true, if_false, Bool.not_false, and_self, if_true] at h
  obtain ⟨d₁, hio, rfl⟩ := Option.map_eq_some_iff.1 h
  obtain ⟨hok₁, hsame, hgives⟩ := noblockCompleateIo_gives (d := d.getLdev) ⟨hok.resync, hok.noblock⟩ hheld hio
  refine ⟨⟨hok₁.resync, hok₁.noblock⟩, hsame, fun c hc => ?_⟩
  have h₁ := hgives c hc
  cases c with
  | ldev =>
      simp only [Device.count, Holding.count, Device.getLdev, Device.putLdev, Bool.toNat_false] at h₁ ⊢
      omega
  | unacked => exact h₁
  | resync enr => exact h₁
  | noblock enr => exact h₁

theorem put_counts {lc : LruCache} {r : Range} (hself : refs lc (bmSectToExt r.sector) + 1
    = refs d.resync (bmSectToExt r.sector))
    (hothers : ∀ x, x ≠ LC_FREE → x ≠ bmSectToExt r.sector → refs lc x = refs d.resync x) :
    Gives d { d with resync := lc } ⟨false, false, some r, none⟩ := by
  intro c hc
  cases c with
  | resync enr =>
      simp only [Device.count, Holding.count]
      split
      · rename_i heq
        rw [← heq]
        exact hself
      · rename_i hne
        exact hothers enr hc fun heq => hne heq.symm
  | ldev => rfl
  | unacked => rfl
  | noblock enr => rfl

/-! ## Runs -/

/-- Every counter is what it was at the beginning, and what is held now. -/
structure Balanced (base : Counter → Nat) (s : State) : Prop where
  ok : s.device.Ok
  locking : ∀ r i, s.sender = .locking r i → (s.device.resync.lcElement i).lcNewNumber = bmSectToExt r.sector
  counts : ∀ c, c.Real → s.device.count c = base c + s.held c

variable {base : Counter → Nat} {s s' : State}

/-- The sender goes on, and takes or gives back what its new holding and its old one differ in. -/
theorem Balanced.proceed {sender : Sender} (h : Balanced base s) (hok : d.Ok)
    (hlocking : ∀ r i, sender = .locking r i → (d.resync.lcElement i).lcNewNumber = bmSectToExt r.sector)
    (hcounts : ∀ c, c.Real → d.count c + s.sender.holding.count c = s.device.count c + sender.holding.count c) :
    Balanced base (s.proceed d sender) := by
  refine ⟨hok, hlocking, fun c hc => ?_⟩
  have h₁ := h.counts c hc
  have h₂ := hcounts c hc
  simp only [State.proceed, State.held] at h₁ ⊢
  omega

/-- A request goes on, or is freed. -/
theorem Balanced.replace {q : PeerReq} {q' : Option PeerReq} (h : Balanced base s) (hq : q ∈ s.flights)
    (hok : d.Ok) (hlabels : ∀ j, (d.resync.lcElement j).lcNewNumber = (s.device.resync.lcElement j).lcNewNumber)
    (hcounts : ∀ c, c.Real →
      d.count c + q.holding.count c = s.device.count c + (q'.map fun q' => q'.holding.count c).getD 0) :
    Balanced base (s.replace q d q') := by
  refine ⟨hok, fun r i hs => (hlabels i).trans (h.locking r i hs), fun c hc => ?_⟩
  have h₁ := h.counts c hc
  have h₂ := hcounts c hc
  have hperm := ((List.perm_cons_erase hq).map fun q => q.holding.count c).sum_nat
  rw [List.map_cons, List.sum_cons] at hperm
  have hnew : ((q'.toList ++ s.flights.erase q).map fun q => q.holding.count c).sum
      = (q'.map fun q' => q'.holding.count c).getD 0 + ((s.flights.erase q).map fun q => q.holding.count c).sum := by
    cases q' with
    | none => simp
    | some q' => simp
  simp only [State.replace, State.held] at h₁ ⊢
  rw [hnew]
  omega

/-- What a request under way holds is there. -/
theorem Balanced.flight_held {q : PeerReq} {c : Counter} (h : Balanced base s) (hq : q ∈ s.flights) (hc : c.Real) :
    q.holding.count c ≤ s.device.count c := by
  have hcount := h.counts c hc
  have hperm := ((List.perm_cons_erase hq).map fun q => q.holding.count c).sum_nat
  rw [List.map_cons, List.sum_cons] at hperm
  unfold State.held at hcount
  omega

theorem Balanced.sender_held {c : Counter} (h : Balanced base s) (hc : c.Real) :
    s.sender.holding.count c ≤ s.device.count c := by
  have hcount := h.counts c hc
  unfold State.held at hcount
  omega

theorem Balanced.noblock_held {q : PeerReq} (h : Balanced base s) (hq : q ∈ s.flights) :
    ∀ x ∈ extents q.range.sector q.range.size, 0 < refs s.device.lruNoblock x := by
  intro x hx
  have hheld := h.flight_held hq (c := .noblock x) (q.range.noblock_real x hx)
  have hone : q.holding.count (.noblock x) = 1 := by
    obtain ⟨range, phase⟩ := q
    cases phase <;> exact if_pos hx
  rw [hone] at hheld
  exact hheld

/-! ### The steps of the sending thread -/

/-- The thread goes on with what it has. -/
theorem Balanced.goOn {sender : Sender} (h : Balanced base s) (hsame : sender.holding = s.sender.holding)
    (hlocking : ∀ r i, sender ≠ .locking r i) : Balanced base (s.proceed s.device sender) :=
  h.proceed h.ok (fun r i heq => absurd heq (hlocking r i)) fun c _ => by rw [hsame]

theorem Balanced.getLdev (h : Balanced base s) (hidle : s.sender = .idle) :
    Balanced base (s.proceed s.device.getLdev .scanning) := by
  refine h.proceed ⟨h.ok.resync, h.ok.noblock⟩ (fun _ _ => nofun) fun c _ => ?_
  rw [hidle]
  cases c <;> rfl

/-- The thread holds only its reference to the disk, and gives it back. -/
theorem Balanced.putLdev (h : Balanced base s) (hholds : s.sender.holding = ⟨true, false, none, none⟩) :
    Balanced base (s.proceed s.device.putLdev .idle) := by
  have hheld := h.sender_held (c := .ldev) trivial
  rw [hholds] at hheld
  refine h.proceed ⟨h.ok.resync, h.ok.noblock⟩ (fun _ _ => nofun) fun c _ => ?_
  rw [hholds]
  cases c with
  | ldev => exact Nat.sub_add_cancel hheld
  | _ => rfl

theorem Balanced.rsWait {r : Range} {lc : LruCache} (h : Balanced base s) (hallocated : s.sender = .allocated r)
    (hwait : bmeWait s.device.resync (bmSectToExt r.sector) = some lc) :
    Balanced base (s.proceed { s.device with resync := lc } (.allocated r)) := by
  obtain ⟨hlc, hrefs⟩ := bmeWait_refs h.ok.resync hwait
  refine h.proceed ⟨hlc, h.ok.noblock⟩ (fun _ _ => nofun) fun c _ => ?_
  rw [hallocated]
  cases c with
  | resync enr => exact congrArg (· + 0) (hrefs enr)
  | _ => rfl

theorem Balanced.rsGet {r : Range} {lc : LruCache} {i : Nat} (h : Balanced base s)
    (hallocated : s.sender = .allocated r) (hget : bmeGet s.device.resync (bmSectToExt r.sector) = some (lc, i)) :
    Balanced base (s.proceed { s.device with resync := lc } (.locking r i)) := by
  obtain ⟨hlc, hlabel, hself, hothers⟩ := bmeGet_refs h.ok.resync r.resync_real hget
  refine h.proceed ⟨hlc, h.ok.noblock⟩ (fun r' i' heq => ?_) fun c hc => ?_
  · cases heq
    exact hlabel
  · rw [hallocated]
    cases c with
    | resync enr =>
        simp only [Device.count, Holding.count, Sender.holding]
        split
        · rename_i heq
          rw [← heq]
          exact hself
        · rename_i hne
          exact congrArg (· + 0) (hothers enr hc fun heq => hne heq.symm)
    | _ => rfl

/-- The thread gives back the extent for which it waits. -/
theorem Balanced.rsPut {r : Range} {i cnt : Nat} {lc : LruCache} (h : Balanced base s)
    (hlocking : s.sender = .locking r i) (hput : lcPut s.device.resync i = some (lc, cnt)) :
    Balanced base (s.proceed { s.device with resync := lc } (.allocated r)) := by
  obtain ⟨hlc, _, hself, hothers⟩ := h.ok.resync.put r.resync_real (h.locking r i hlocking) hput
  refine h.proceed ⟨hlc, h.ok.noblock⟩ (fun _ _ => nofun) fun c hc => ?_
  rw [hlocking]
  have hput := put_counts (d := s.device) (r := r) hself hothers c hc
  cases c with
  | ldev => rfl
  | _ => exact hput

theorem Balanced.incUnacked {r : Range} (h : Balanced base s) (hbegun : s.sender = .begun r) :
    Balanced base (s.proceed s.device.incUnacked (.counted r)) := by
  refine h.proceed ⟨h.ok.resync, h.ok.noblock⟩ (fun _ _ => nofun) fun c _ => ?_
  rw [hbegun]
  cases c <;> rfl

theorem Balanced.noblockBeginIo {r : Range} (h : Balanced base s) (hcounted : s.sender = .counted r)
    (hroom : Room s.device.lruNoblock (extents r.sector r.size)) (hio : s.device.noblockBeginIo r = some d) :
    Balanced base (s.proceed d (.filled r)) := by
  obtain ⟨hd, _, htakes⟩ := noblockBeginIo_takes h.ok hroom hio
  refine h.proceed hd (fun _ _ => nofun) fun c hc => ?_
  have hone := htakes c hc
  rw [hcounted]
  cases c <;> simp only [Holding.count, Sender.holding, Bool.toNat_false, Nat.add_zero] at hone ⊢ <;> omega

/-- What the thread held is the request's now. -/
theorem Balanced.submit {r : Range} (h : Balanced base s) (hfilled : s.sender = .filled r) :
    Balanced base { s with sender := .idle, flights := ⟨r, .reading⟩ :: s.flights } := by
  refine ⟨h.ok, fun _ _ => nofun, fun c hc => ?_⟩
  have hone := h.counts c hc
  simp only [State.held, hfilled, List.map_cons, List.sum_cons] at hone ⊢
  have hsame : (Sender.filled r).holding.count c = (PeerReq.mk r .reading).holding.count c := by
    cases c <;> rfl
  have hnone : Sender.idle.holding.count c = 0 := by cases c <;> rfl
  omega

theorem senderStep_balanced {e : Event} (h : Balanced base s) (hcond : Cond s e)
    (hstep : senderStep s e = some s') : Balanced base s' := by
  cases e with
  | getLdev ok =>
      simp only [senderStep] at hstep
      split at hstep
      · cases hstep
      rename_i hidle
      split at hstep
      · cases hstep
        exact h.getLdev (not_not.1 hidle)
      · cases hstep
        exact h
  | leave =>
      simp only [senderStep] at hstep
      split at hstep
      · rename_i hscanning
        cases hstep
        exact h.putLdev (by rw [hscanning]; rfl)
      · cases hstep
  | alloc r ok =>
      simp only [senderStep] at hstep
      split at hstep
      · cases hstep
      rename_i hscanning
      rw [not_not] at hscanning
      split at hstep
      · cases hstep
        exact h.goOn (by rw [hscanning]; rfl) fun _ _ => nofun
      · cases hstep
        exact h.putLdev (by rw [hscanning]; rfl)
  | rsWait =>
      simp only [senderStep] at hstep
      split at hstep
      · rename_i r hallocated
        obtain ⟨lc, hwait, rfl⟩ := Option.map_eq_some_iff.1 hstep
        exact h.rsWait hallocated hwait
      · cases hstep
  | rsGet =>
      simp only [senderStep] at hstep
      split at hstep
      · rename_i r hallocated
        obtain ⟨⟨lc, i⟩, hget, rfl⟩ := Option.map_eq_some_iff.1 hstep
        exact h.rsGet hallocated hget
      · cases hstep
  | rsLocked =>
      simp only [senderStep] at hstep
      split at hstep
      · rename_i r i hlocking
        cases hstep
        exact h.goOn (by rw [hlocking]; rfl) fun _ _ => nofun
      · cases hstep
  | rsStepAside =>
      simp only [senderStep] at hstep
      split at hstep
      · rename_i r i hlocking
        obtain ⟨⟨lc, cnt⟩, hput, rfl⟩ := Option.map_eq_some_iff.1 hstep
        exact h.rsPut hlocking hput
      · cases hstep
  | rsInterrupted =>
      simp only [senderStep] at hstep
      split at hstep
      · rename_i r hallocated
        cases hstep
        exact h.putLdev (by rw [hallocated]; rfl)
      · rename_i r i hlocking
        obtain ⟨⟨lc, cnt⟩, hput, rfl⟩ := Option.map_eq_some_iff.1 hstep
        exact (h.rsPut hlocking hput).putLdev rfl
      · cases hstep
  | incUnacked =>
      simp only [senderStep] at hstep
      split at hstep
      · rename_i r hbegun
        cases hstep
        exact h.incUnacked hbegun
      · cases hstep
  | noblockBeginIo =>
      simp only [senderStep] at hstep
      split at hstep
      · rename_i r hcounted
        obtain ⟨d, hio, rfl⟩ := Option.map_eq_some_iff.1 hstep
        simp only [Cond, hcounted, Sender.HasRoom] at hcond
        exact h.noblockBeginIo hcounted hcond hio
      · cases hstep
  | submit ok =>
      simp only [senderStep] at hstep
      split at hstep
      · rename_i r hfilled
        cases hcond
        cases hstep
        exact h.submit hfilled
      · cases hstep
  | endio _ _ => cases hstep
  | work _ _ => cases hstep
  | blockAck _ _ => cases hstep
  | negAck _ => cases hstep

theorem flightStep_balanced {e : Event} (h : Balanced base s) (hcond : Cond s e)
    (hstep : flightStep s e = some s') : Balanced base s' := by
  cases e with
  | endio q wasError =>
      simp only [flightStep] at hstep
      split at hstep
      · rename_i hq
        cases hstep
        have hheld := h.flight_held hq.1 (c := .ldev) trivial
        refine h.replace hq.1 ⟨h.ok.resync, h.ok.noblock⟩ (fun _ => rfl) fun c hc => ?_
        obtain ⟨range, phase⟩ := q
        obtain rfl : phase = .reading := hq.2
        cases c with
        | ldev => exact Nat.sub_add_cancel hheld
        | _ => rfl
      · cases hstep
  | work q w =>
      simp only [flightStep] at hstep
      split at hstep
      · cases hstep
      rename_i hq
      rw [not_not] at hq
      obtain ⟨range, phase⟩ := q
      cases phase with
      | read wasError =>
          obtain ⟨⟨d, sent⟩, hwork, rfl⟩ := Option.map_eq_some_iff.1 hstep
          have hunacked := h.flight_held hq (c := .unacked) trivial
          have hresync : (1 : Nat) ≤ refs s.device.resync (bmSectToExt range.sector) := by
            have := h.flight_held hq (c := .resync (bmSectToExt range.sector)) range.resync_real
            simpa [PeerReq.holding, Holding.count, Device.count] using this
          obtain ⟨hd, hlabels, hgives⟩ := wEEndRsdataReq_gives h.ok hunacked hresync (h.noblock_held hq) hcond hwork
          refine h.replace hq hd hlabels fun c hc => ?_
          have hone := hgives c hc
          cases sent <;> cases c <;> simpa [PeerReq.holding, Holding.count] using hone
      | reading => cases hstep
      | sent => cases hstep
  | blockAck q a =>
      simp only [flightStep] at hstep
      split at hstep
      · rename_i hq
        obtain ⟨d, hack, rfl⟩ := Option.map_eq_some_iff.1 hstep
        obtain ⟨hd, hsame, hgives⟩ := gotBlockAck_gives h.ok (h.noblock_held hq.1) hcond hack
        refine h.replace hq.1 hd (fun _ => by rw [hsame]) fun c hc => ?_
        obtain ⟨range, phase⟩ := q
        obtain rfl : phase = .sent := hq.2
        exact hgives c hc
      · cases hstep
  | negAck q => exact hcond.elim
  | _ => cases hstep

theorem step_balanced {e : Event} (h : Balanced base s) (hcond : Cond s e) (hstep : step s e = some s') :
    Balanced base s' := by
  cases e with
  | endio q wasError => exact flightStep_balanced h hcond hstep
  | work q w => exact flightStep_balanced h hcond hstep
  | blockAck q a => exact flightStep_balanced h hcond hstep
  | negAck q => exact flightStep_balanced h hcond hstep
  | _ => exact senderStep_balanced h hcond hstep

/-- In a run that meets none of the cases in which something is forgotten, every counter is what it was and
what is held, so nothing is left over when nothing is under way. -/
theorem async_sync_balanced {s s' : State} {es : List Event} (hquiet : s.Quiet) (hok : s.device.Ok)
    (hmeets : Meets step Cond s es) (hrun : run step s es = some s') :
    (∀ c, c.Real → s'.device.count c = s.device.count c + s'.held c) ∧
      (s'.Quiet → ∀ c, c.Real → s'.device.count c = s.device.count c) := by
  have hstart : Balanced s.device.count s :=
    ⟨hok, fun r i hs => (by rw [hquiet.1] at hs; cases hs), fun c _ => by rw [hquiet.held]; rfl⟩
  have hend : Balanced s.device.count s' :=
    run_invariant (I := Balanced s.device.count) (fun h hcond hstep => step_balanced h hcond hstep) hstart hmeets hrun
  refine ⟨hend.counts, fun hquiet' c hc => ?_⟩
  rw [hend.counts c hc, hquiet'.held]
  rfl

/-! ## One block -/

/-- Two resync extents and two for `lru_noblock`. -/
def smallDevice : Device := ⟨0, 0, lcCreate 2 2, lcCreate 2 2⟩

theorem smallDevice_ok : smallDevice.Ok :=
  ⟨Settled.lcCreate 2 2, NoblockOk.lcCreate (by decide) 2⟩

theorem firstBlock_inside : 0 + 4096 / 512 ≤ 2 ^ 42 := by decide

def firstBlock : Range := ⟨0, 4096, by decide, firstBlock_inside⟩

/-- The sender as far as the submission of a read. -/
def sending (submitted : Bool) : List Event :=
  [.getLdev true, .alloc firstBlock true, .rsGet, .rsLocked, .incUnacked, .noblockBeginIo, .submit submitted]

/-- The data go out. -/
def goesOut : WorkInput where
  cancel := false
  ldev := true
  snapshot := false
  ahead := false
  pdsk := true
  sendFails := false
  netConf := .protocolS
  netConfAfter := .protocolS

/-- The block is sent, and acknowledged. -/
def blockSent : List Event :=
  sending true ++ [.endio ⟨firstBlock, .reading⟩ false, .work ⟨firstBlock, .read false⟩ goesOut,
    .blockAck ⟨firstBlock, .sent⟩ ⟨true, false, .protocolS⟩]

theorem async_sync_balanced_block :
    ∃ s', run step ⟨smallDevice, .idle, []⟩ blockSent = some s' ∧
      ∀ c, c.Real → s'.device.count c = smallDevice.count c := by
  obtain ⟨s', hrun⟩ : ∃ s', run step ⟨smallDevice, .idle, []⟩ blockSent = some s' :=
    Option.isSome_iff_exists.1 (by decide)
  have hend : (run step ⟨smallDevice, .idle, []⟩ blockSent).map (fun s => (s.sender, s.flights))
      = some (.idle, []) := by decide
  rw [hrun, Option.map_some, Option.some.injEq, Prod.mk.injEq] at hend
  exact ⟨s', hrun, (async_sync_balanced (s := ⟨smallDevice, .idle, []⟩) ⟨rfl, rfl⟩ smallDevice_ok
    (by decide) hrun).2 hend⟩

/-- Where the sender is, the requests under way, and the counters of the first extents. -/
def State.left (s : State) : Sender × List PeerReq × Nat × Nat × Nat × Nat :=
  (s.sender, s.flights, s.device.count .ldev, s.device.count .unacked, s.device.count (.resync 0),
    s.device.count (.noblock 0))

/-- What is left over when the peer has no disk, when the read is not submitted, when the request is cancelled,
and when the peer could not write the block. -/
theorem async_sync_leaks :
    (run step ⟨smallDevice, .idle, []⟩ (sending true ++ [.endio ⟨firstBlock, .reading⟩ false,
        .work ⟨firstBlock, .read false⟩ { goesOut with pdsk := false }])).map State.left
      = some (.idle, [], 0, 0, 0, 1) ∧
    (run step ⟨smallDevice, .idle, []⟩ (sending false)).map State.left = some (.idle, [], 0, 1, 1, 0) ∧
    (run step ⟨smallDevice, .idle, []⟩ (sending true ++ [.endio ⟨firstBlock, .reading⟩ false,
        .work ⟨firstBlock, .read false⟩ { goesOut with cancel := true }])).map State.left
      = some (.idle, [], 0, 0, 1, 1) ∧
    (run step ⟨smallDevice, .idle, []⟩ (sending true ++ [.endio ⟨firstBlock, .reading⟩ false,
        .work ⟨firstBlock, .read false⟩ goesOut, .negAck ⟨firstBlock, .sent⟩])).map State.left
      = some (.idle, [], 0, 0, 0, 1) := by
  refine ⟨by decide, by decide, by decide, by decide⟩

end Drbd.AsyncSync
