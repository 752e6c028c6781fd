import Drbd.Lib.System
import Drbd.ResyncRequest.Pass

/-!
# The sectors in flight

A turn of `make_resync_request` adds what it has asked for to `rs_in_flight` when it leaves through `requeue`; what
is answered goes to `rs_sect_in`, and the next turn takes it off. The answers may come at any time, also within a
turn.
-/

namespace Drbd.ResyncRequest

open Bitmap Lib

variable {n : Nat}

/-- What a round of the loop comes to: it goes on, perhaps with a request sent, or the loop is left. -/
inductive Outcome
  | next (again : Bool) (request : Option Request) (i bmResyncFo : Nat)
  | leave (stop : Stop) (bmResyncFo : Nat)
deriving DecidableEq

/-- One round of the loop of `make_resync_request`. -/
def turnRound (capacity maxBioSize number : Nat) (again : Bool) (r : ResyncRound n) (bmResyncFo i : Nat) : Outcome :=
  if !again ∧ number ≤ i then .leave (if r.found.bmBits ≤ bmResyncFo then .done else .requeue) bmResyncFo
  else if !again ∧ r.sndbufFilled then .leave .requeue bmResyncFo
  else
    match bmFindNext r.found.toDrbdBitmap bmResyncFo false with
    | none => .leave .done r.found.bmBits
    | some bit =>
        let sector := bmBitToSect bit
        if r.busy then .leave .requeue bit
        else if drbdBmTestBit r.tested.toDrbdBitmap bit = .isClear then .next true none i (bit + 1)
        else
          let (last, size) := mergeResync r.tested.toDrbdBitmap maxBioSize sector (number - i) bit BM_BLOCK_SIZE 1
          let fo := if BM_BLOCK_SIZE < size then last + 1 else bit + 1
          let size := clip capacity sector size
          match r.sent with
          | .ok => .next false (some ⟨sector, size⟩) (i + (last - bit) + 1) fo
          | .again => .leave .requeue (bmSectToBit sector)
          | .failed => .leave .error fo

/-- A turn that is on its way: `number` and `mxb` are those of `drbd_rs_number_requests`. -/
structure RsTurn where
  number : Nat
  mxb : Nat
  i : Nat
  again : Bool
deriving DecidableEq

/-- The counters, and the requests that have no answer yet. -/
structure Flight where
  rsInFlight : Int
  rsSectIn : Nat
  bmResyncFo : Nat
  asked : List Request
  /-- the connection is not in `C_SYNC_TARGET` -/
  paused : Bool
  /-- a request could not be sent, or a block not be read: the connection or the disk is gone -/
  stopped : Bool
  turn : Option RsTurn
deriving DecidableEq

inductive FlightEvent (n : Nat)
  | turn (wanted : Int) (maxBuffers : Nat)
  | round (r : ResyncRound n)
  /-- `P_RS_DATA_REPLY` to request `k`, with a digest for its integrity -/
  | rsDataReply (k digest : Nat)
  | isInSync (k : Nat)
  | negRsDreply (k : Nat)
  | rsCancel (k : Nat)
  | pause
  | resume

namespace Flight

/-- `drbd_rs_number_requests`; `wanted` is what the controller, or the fixed rate, asks for. -/
def drbdRsNumberRequests (s : Flight) (wanted : Int) (maxBuffers : Nat) : Flight × Int :=
  let rsInFlight := s.rsInFlight - s.rsSectIn
  let mxb : Int := (maxBuffers / 2 : Nat)
  ({ s with rsSectIn := 0, rsInFlight := rsInFlight }, if mxb - rsInFlight < wanted then mxb - rsInFlight else wanted)

/-- The start of `make_resync_request`. -/
def startTurn (s : Flight) (wanted : Int) (maxBuffers : Nat) : Flight :=
  let (s, number) := s.drbdRsNumberRequests wanted maxBuffers
  if number ≤ 0 then s else { s with turn := some ⟨number.toNat, maxBuffers / 2, 0, false⟩ }

/-- A round of the running turn `t`. -/
def goRound (s : Flight) (capacity maxBioSize : Nat) (t : RsTurn) (r : ResyncRound n) : Flight :=
  match turnRound capacity maxBioSize t.number t.again r s.bmResyncFo t.i with
  | .next again request i fo =>
      { s with bmResyncFo := fo, asked := request.toList ++ s.asked, turn := some { t with again := again, i := i } }
  | .leave .requeue fo =>
      { s with bmResyncFo := fo, turn := none, rsInFlight := s.rsInFlight + (t.i <<< 3 : Nat) }
  | .leave .error fo => { s with bmResyncFo := fo, turn := none, stopped := true }
  | .leave _ fo => { s with bmResyncFo := fo, turn := none }

/-- An answer to request `k`, which is for `credit` sectors more. -/
def answer (s : Flight) (k : Nat) (credit : Request → Nat) : Option Flight :=
  (s.asked[k]?).map fun r => { s with asked := s.asked.eraseIdx k, rsSectIn := s.rsSectIn + credit r }

def step (capacity maxBioSize : Nat) (s : Flight) : FlightEvent n → Option Flight
  | .turn wanted maxBuffers =>
      if s.turn = none ∧ s.paused = false ∧ s.stopped = false then some (s.startTurn wanted maxBuffers) else none
  | .round r => s.turn.map fun t => s.goRound capacity maxBioSize t r
  | .rsDataReply k digest => if digest < 512 then s.answer k fun r => (r.size + digest) >>> 9 else none
  | .isInSync k => s.answer k fun r => r.size >>> 9
  | .negRsDreply k => s.answer k fun _ => 0
  | .rsCancel k => s.answer k fun _ => 0
  | .pause => some { s with paused := true }
  | .resume => some { s with paused := false }

/-- After `drbd_rs_controller_reset`, at the start of a resync. -/
def start : Flight := ⟨0, 0, 0, [], false, false, none⟩

/-- The sectors asked for and not answered. -/
def sectors (s : Flight) : Nat := (s.asked.map fun r => r.size >>> 9).sum

/-- The same in blocks. -/
def blocks (s : Flight) : Nat := (s.asked.map Request.blocks).sum

/-- What the running turn has asked for so far. -/
def i (s : Flight) : Nat := (s.turn.map RsTurn.i).getD 0

end Flight

variable {capacity maxBioSize number fo fo' i i' : Nat} {again again' : Bool} {r : ResyncRound n} {req : Request}
  {rounds : List (ResyncRound n)} {s s' : Flight}

/-! ## Rounds -/

/-- The loop is a round and what comes after it. -/
theorem makeResyncRequest_cons (capacity maxBioSize number : Nat) (again : Bool) (r : ResyncRound n)
    (rounds : List (ResyncRound n)) (fo i : Nat) :
    makeResyncRequest capacity maxBioSize number again (r :: rounds) fo i =
      match turnRound capacity maxBioSize number again r fo i with
      | .next again none i fo => makeResyncRequest capacity maxBioSize number again rounds fo i
      | .next again (some req) i fo => (makeResyncRequest capacity maxBioSize number again rounds fo i).cons req
      | .leave stop fo => ⟨[], stop, fo⟩ := by
  rw [makeResyncRequest, turnRound]
  split
  · rfl
  split
  · rfl
  cases bmFindNext r.found.toDrbdBitmap fo false with
  | none => rfl
  | some bit =>
      dsimp only
      split
      · rfl
      split
      · rfl
      cases r.sent <;> rfl

theorem mergeResync_le (b : DrbdBitmap) (maxBioSize sector n bit size align : Nat) :
    bit ≤ (mergeResync b maxBioSize sector n bit size align).1 ∧
      (mergeResync b maxBioSize sector n bit size align).1 ≤ bit + n := by
  induction n generalizing bit size align with
  | zero => exact ⟨Nat.le_refl _, Nat.le_refl _⟩
  | succ n ih =>
      have hstop : bit ≤ bit ∧ bit ≤ bit + (n + 1) := ⟨Nat.le_refl _, Nat.le_add_right _ _⟩
      rw [mergeResync]
      split
      · exact hstop
      split
      · exact hstop
      split
      · exact hstop
      split
      · exact hstop
      have hrest := ih (bit + 1) (size + BM_BLOCK_SIZE)
        (if BM_BLOCK_SIZE <<< align ≤ size + BM_BLOCK_SIZE then align + 1 else align)
      dsimp only
      exact ⟨by omega, by omega⟩

/-- A round that sends a request counts its blocks, and at most one more than it should. -/
theorem turnRound_some (hcap : n ≤ (capacity + 7) / 8)
    (h : turnRound capacity maxBioSize number again r fo i = .next again' (some req) i' fo')
    (hi : again = true → i < number) :
    again' = false ∧ i' = i + req.blocks ∧ i' ≤ number + 1 ∧ req.size >>> 9 ≤ 8 * req.blocks ∧
      req.size % 512 = 0 := by
  unfold turnRound at h
  split at h
  · cases h
  rename_i hleft
  have hlt : i < number := by
    cases again with
    | true => exact hi rfl
    | false => exact Nat.lt_of_not_le fun hge => hleft ⟨rfl, hge⟩
  split at h
  · cases h
  split at h
  · cases h
  rename_i bit hfind
  dsimp only at h
  split at h
  · cases h
  split at h
  · cases h
  rename_i htest
  have hset := isSet_of_find hfind htest
  obtain ⟨last, hmerge, hle, hin, _⟩ := mergeResync_spec r.tested.toDrbdBitmap maxBioSize (bmBitToSect bit)
    (number - i) bit BM_BLOCK_SIZE 1 (by rw [r.tested.bits]; exact hset.1.lt)
  have hmost := (mergeResync_le r.tested.toDrbdBitmap maxBioSize (bmBitToSect bit) (number - i) bit BM_BLOCK_SIZE 1).2
  rw [hmerge] at h hmost
  dsimp only at h hmost
  split at h
  · cases h
    have hreq : (⟨bmBitToSect bit, clip capacity (bmBitToSect bit)
        (BM_BLOCK_SIZE + BM_BLOCK_SIZE * (last - bit))⟩ : Request) = requestOf capacity bit last := by
      rw [requestOf, Nat.mul_add, Nat.mul_one, Nat.add_comm]
    rw [hreq, requestOf_blocks hle (inside_capacity hcap hin)]
    refine ⟨rfl, by omega, by omega, ?_, ?_⟩
    · have hsize := (requestOf_size hle (inside_capacity hcap hin)).2
      rw [Nat.shiftRight_eq_div_pow]
      simp only [BM_BLOCK_SIZE] at hsize
      omega
    · unfold requestOf clip
      dsimp only
      split
      · rw [Nat.shiftLeft_eq]
        exact Nat.mul_mod_left _ _
      · simp only [BM_BLOCK_SIZE]
        omega
  · cases h
  · cases h

theorem turnRound_none (h : turnRound capacity maxBioSize number again r fo i = .next again' none i' fo')
    (hi : again = true → i < number) : again' = true ∧ i' = i ∧ i < number := by
  unfold turnRound at h
  split at h
  · cases h
  rename_i hleft
  have hlt : i < number := by
    cases again with
    | true => exact hi rfl
    | false => exact Nat.lt_of_not_le fun hge => hleft ⟨rfl, hge⟩
  split at h
  · cases h
  split at h
  · cases h
  dsimp only at h
  split at h
  · cases h
  split at h
  · cases h
    exact ⟨rfl, rfl, hlt⟩
  · split at h <;> cases h

/-! ## Runs in which everything is counted -/

/-- The round neither sends a request for a block that is cut short at the end of the device, nor leaves a turn that
has sent something other than through `requeue`. -/
def RoundCounted (capacity maxBioSize : Nat) (s : Flight) (t : RsTurn) (r : ResyncRound n) : Prop :=
  match turnRound capacity maxBioSize t.number t.again r s.bmResyncFo t.i with
  | .next _ none _ _ => True
  | .next _ (some req) _ _ => req.size % BM_BLOCK_SIZE = 0
  | .leave stop _ => stop = .requeue ∨ t.i = 0

/-- Nothing goes uncounted: also no request is refused or cancelled. -/
def Counted (capacity maxBioSize : Nat) (s : Flight) : FlightEvent n → Prop
  | .round r => ∀ t ∈ s.turn, RoundCounted capacity maxBioSize s t r
  | .negRsDreply _ | .rsCancel _ => False
  | _ => True

/-- What is known of a running turn. -/
structure RsTurn.Ok (s : Flight) (t : RsTurn) : Prop where
  most : t.i ≤ t.number + 1
  again : t.again = true → t.i < t.number
  room : (t.number : Int) ≤ t.mxb - s.rsInFlight
  nonneg : 0 ≤ s.rsInFlight

/-- Requests for whole blocks are in flight, and each sector of them is counted once: in `rs_in_flight`, or by the
running turn, and not in `rs_sect_in`. -/
structure FlightInv (s : Flight) : Prop where
  balance : s.rsInFlight + 8 * s.i - s.rsSectIn = s.sectors
  whole : ∀ r ∈ s.asked, r.size % BM_BLOCK_SIZE = 0
  turn : ∀ t ∈ s.turn, t.Ok s

theorem sectors_eq_blocks {l : List Request} (h : ∀ r ∈ l, r.size % BM_BLOCK_SIZE = 0) :
    (l.map fun r => r.size >>> 9).sum = 8 * (l.map Request.blocks).sum := by
  induction l with
  | nil => rfl
  | cons r l ih =>
      have hr := h r List.mem_cons_self
      rw [List.map_cons, List.map_cons, List.sum_cons, List.sum_cons, ih fun r hr => h r (List.mem_cons_of_mem _ hr)]
      simp only [Request.blocks, BM_BLOCK_SIZE, Nat.shiftRight_eq_div_pow] at hr ⊢
      omega

/-- The request with an answer leaves. -/
theorem sum_eraseIdx {l : List Request} {k : Nat} {r : Request} (f : Request → Nat) (h : l[k]? = some r) :
    (l.map f).sum = f r + ((l.eraseIdx k).map f).sum := by
  obtain ⟨hlt, hget⟩ := List.getElem?_eq_some_iff.1 h
  have hperm := ((List.getElem_cons_eraseIdx_perm hlt).map f).sum_eq
  rw [← hperm, List.map_cons, List.sum_cons, hget]

theorem FlightInv.answer {k : Nat} {credit : Request → Nat} (hI : FlightInv s)
    (hcredit : ∀ r, r.size % BM_BLOCK_SIZE = 0 → credit r = r.size >>> 9) (h : s.answer k credit = some s') :
    FlightInv s' := by
  obtain ⟨r, hr, heq⟩ := Option.map_eq_some_iff.1 h
  cases heq
  have hbalance := hI.balance
  have hsum := sum_eraseIdx (fun r => r.size >>> 9) hr
  have hwhole := hcredit r (hI.whole r (List.mem_of_getElem? hr))
  refine ⟨?_, fun r hr => hI.whole r (List.mem_of_mem_eraseIdx hr), fun t ht => ?_⟩
  · unfold Flight.sectors Flight.i at hbalance ⊢
    dsimp only at hsum ⊢
    omega
  · obtain ⟨hmost, hagain, hroom, hnonneg⟩ := hI.turn t ht
    exact ⟨hmost, hagain, hroom, hnonneg⟩

theorem FlightInv.startTurn (hI : FlightInv s) (hturn : s.turn = none) (wanted : Int) (maxBuffers : Nat) :
    FlightInv (s.startTurn wanted maxBuffers) := by
  have hbalance := hI.balance
  unfold Flight.i at hbalance
  rw [hturn] at hbalance
  unfold Flight.startTurn Flight.drbdRsNumberRequests
  dsimp only
  generalize hnumber : (if ((maxBuffers / 2 : Nat) : Int) - (s.rsInFlight - s.rsSectIn) < wanted
    then ((maxBuffers / 2 : Nat) : Int) - (s.rsInFlight - s.rsSectIn) else wanted) = number
  have hroom : number ≤ ((maxBuffers / 2 : Nat) : Int) - (s.rsInFlight - s.rsSectIn) := by
    rw [← hnumber]
    split <;> omega
  have hstart : ∀ turn : Option RsTurn, (turn.map RsTurn.i).getD 0 = 0 →
      (∀ t ∈ turn, t.Ok { s with rsSectIn := 0, rsInFlight := s.rsInFlight - s.rsSectIn, turn := turn }) →
      FlightInv { s with rsSectIn := 0, rsInFlight := s.rsInFlight - s.rsSectIn, turn := turn } := by
    intro turn hzero hok
    refine ⟨?_, hI.whole, hok⟩
    unfold Flight.i
    dsimp only [Option.map_none, Option.getD_none] at hbalance ⊢
    rw [hzero]
    show _ = (s.sectors : Int)
    omega
  split
  · have hidle := hstart none rfl fun t ht => by cases ht
    rwa [← hturn] at hidle
  · refine hstart (some ⟨number.toNat, maxBuffers / 2, 0, false⟩) rfl fun t ht => ?_
    cases ht
    refine ⟨Nat.zero_le _, fun h => (by cases h), ?_, ?_⟩
    · show (number.toNat : Int) ≤ ((maxBuffers / 2 : Nat) : Int) - (s.rsInFlight - s.rsSectIn)
      omega
    · show 0 ≤ s.rsInFlight - s.rsSectIn
      dsimp only [Option.map_none, Option.getD_none] at hbalance
      omega

theorem FlightInv.goRound {t : RsTurn} (hcap : n ≤ (capacity + 7) / 8) (hI : FlightInv s) (ht : s.turn = some t)
    (hc : RoundCounted capacity maxBioSize s t r) : FlightInv (s.goRound capacity maxBioSize t r) := by
  have hbalance := hI.balance
  have hok := hI.turn t ht
  unfold Flight.i at hbalance
  rw [ht] at hbalance
  dsimp only [Option.map_some, Option.getD_some] at hbalance
  unfold RoundCounted at hc
  unfold Flight.goRound
  cases hround : turnRound capacity maxBioSize t.number t.again r s.bmResyncFo t.i with
  | next again request i fo =>
      rw [hround] at hc
      cases request with
      | none =>
          obtain ⟨rfl, rfl, hlt⟩ := turnRound_none hround hok.again
          refine ⟨hbalance, hI.whole, fun t' ht' => ?_⟩
          cases ht'
          exact ⟨hok.most, fun _ => hlt, hok.room, hok.nonneg⟩
      | some req =>
          obtain ⟨rfl, rfl, hmost, _⟩ := turnRound_some hcap hround hok.again
          refine ⟨?_, fun r hr => ?_, fun t' ht' => ?_⟩
          · unfold Flight.i Flight.sectors at *
            dsimp only [Option.map_some, Option.getD_some, Option.toList_some] at hbalance hc ⊢
            rw [List.singleton_append, List.map_cons, List.sum_cons]
            simp only [Request.blocks, BM_BLOCK_SIZE, Nat.shiftRight_eq_div_pow] at hc hbalance ⊢
            omega
          · rcases List.mem_cons.1 hr with rfl | hr
            · exact hc
            · exact hI.whole r hr
          · cases ht'
            exact ⟨hmost, fun h => (by cases h), hok.room, hok.nonneg⟩
  | leave stop fo =>
      rw [hround] at hc
      have hleft : ∀ rsInFlight stopped, rsInFlight = s.rsInFlight + 8 * (t.i : Int) →
          FlightInv { s with bmResyncFo := fo, turn := none, rsInFlight := rsInFlight, stopped := stopped } := by
        rintro rsInFlight stopped rfl
        refine ⟨?_, hI.whole, fun t ht => by cases ht⟩
        unfold Flight.i
        dsimp only [Option.map_none, Option.getD_none]
        show _ = (s.sectors : Int)
        omega
      have hzero : stop ≠ .requeue → s.rsInFlight = s.rsInFlight + 8 * (t.i : Int) := fun hne => by
        rcases hc with rfl | hc
        · exact absurd rfl hne
        · rw [hc]
          omega
      cases stop with
      | requeue =>
          refine hleft _ s.stopped ?_
          rw [Nat.shiftLeft_eq]
          omega
      | done => exact hleft _ s.stopped (hzero fun h => by cases h)
      | error => exact hleft _ true (hzero fun h => by cases h)
      | interrupted => exact hleft _ s.stopped (hzero fun h => by cases h)

theorem flight_step (hcap : n ≤ (capacity + 7) / 8) {ev : FlightEvent n} (hI : FlightInv s)
    (hc : Counted capacity maxBioSize s ev)
    (h : s.step capacity maxBioSize ev = some s') : FlightInv s' := by
  cases ev with
  | turn wanted maxBuffers =>
      simp only [Flight.step] at h
      split at h
      · rename_i hidle
        cases h
        exact hI.startTurn hidle.1 wanted maxBuffers
      · cases h
  | round r =>
      obtain ⟨t, ht, heq⟩ := Option.map_eq_some_iff.1 h
      cases heq
      exact hI.goRound hcap ht (hc t ht)
  | rsDataReply k digest =>
      simp only [Flight.step] at h
      split at h
      · rename_i hdigest
        refine hI.answer (fun r hr => ?_) h
        simp only [BM_BLOCK_SIZE, Nat.shiftRight_eq_div_pow] at hr ⊢
        omega
      · cases h
  | isInSync k => exact hI.answer (fun _ _ => rfl) h
  | negRsDreply k => exact hc.elim
  | rsCancel k => exact hc.elim
  | pause =>
      cases h
      exact ⟨hI.balance, hI.whole, fun t ht => ⟨(hI.turn t ht).most, (hI.turn t ht).again, (hI.turn t ht).room,
        (hI.turn t ht).nonneg⟩⟩
  | resume =>
      cases h
      exact ⟨hI.balance, hI.whole, fun t ht => ⟨(hI.turn t ht).most, (hI.turn t ht).again, (hI.turn t ht).room,
        (hI.turn t ht).nonneg⟩⟩

/-- What the counters are for. -/
structure Accounted (s : Flight) : Prop where
  balance : s.turn = none → s.rsInFlight - s.rsSectIn = s.sectors
  nonneg : s.turn = none → 0 ≤ s.rsInFlight - s.rsSectIn
  drained : s.turn = none → s.asked = [] → s.rsInFlight - s.rsSectIn = 0
  /-- a turn that has sent something -/
  bound : ∀ t ∈ s.turn, 0 < t.i → s.blocks ≤ t.mxb + 1

theorem FlightInv.accounted (hI : FlightInv s) : Accounted s := by
  have hbalance : s.turn = none → s.rsInFlight - s.rsSectIn = s.sectors := fun hturn => by
    have hbalance := hI.balance
    unfold Flight.i at hbalance
    rw [hturn] at hbalance
    dsimp only [Option.map_none, Option.getD_none] at hbalance
    omega
  refine ⟨hbalance, fun hturn => ?_, fun hturn hasked => ?_, fun t ht _ => ?_⟩
  · rw [hbalance hturn]
    exact Int.natCast_nonneg _
  · rw [hbalance hturn]
    unfold Flight.sectors
    rw [hasked]
    rfl
  · obtain ⟨hmost, _, hroom, hnonneg⟩ := hI.turn t ht
    have hsum := hI.balance
    have hblocks : s.sectors = 8 * s.blocks := sectors_eq_blocks hI.whole
    unfold Flight.i at hsum
    rw [ht] at hsum
    dsimp only [Option.map_some, Option.getD_some] at hsum
    omega

/-- In every run in which everything is counted, the counters agree with what is in flight. -/
theorem in_flight_accounted {n capacity : Nat} (maxBioSize : Nat) (hcap : n ≤ (capacity + 7) / 8)
    {evs : List (FlightEvent n)} {s : Flight}
    (hc : Meets (Flight.step capacity maxBioSize) (Counted capacity maxBioSize) .start evs)
    (h : run (Flight.step capacity maxBioSize) .start evs = some s) : Accounted s := by
  refine (run_invariant (I := FlightInv) (flight_step hcap) ⟨rfl, fun r hr => ?_, fun t ht => ?_⟩ hc h).accounted
  · cases hr
  · cases ht

instance (capacity maxBioSize : Nat) (s : Flight) (t : RsTurn) (r : ResyncRound n) :
    Decidable (RoundCounted capacity maxBioSize s t r) := by
  unfold RoundCounted
  split <;> infer_instance

instance (capacity maxBioSize : Nat) (s : Flight) (ev : FlightEvent n) :
    Decidable (Counted capacity maxBioSize s ev) := by
  cases ev <;> unfold Counted <;> infer_instance

/-- A round that sees the first two blocks of an extent dirty. -/
def firstRound : ResyncRound 4096 := calmRound firstBlocks

theorem in_flight_accounted_two_turns :
    ∃ s, run (Flight.step 32768 4096) .start [.turn 1 64, .round firstRound, .round firstRound, .isInSync 0,
        .turn 1 64, .round firstRound, .pause, .round firstRound, .resume] = some s ∧ Accounted s := by
  have hsome : (run (Flight.step 32768 4096) .start [.turn 1 64, .round firstRound, .round firstRound, .isInSync 0,
      .turn 1 64, .round firstRound, .pause, .round firstRound, .resume]).isSome := by decide
  obtain ⟨s, hs⟩ := Option.isSome_iff_exists.1 hsome
  exact ⟨s, hs, in_flight_accounted 4096 (by decide) (by decide) hs⟩

theorem Flight.goRound_done {t : RsTurn}
    (h : turnRound capacity maxBioSize t.number t.again r s.bmResyncFo t.i = .leave .done fo) :
    s.goRound capacity maxBioSize t r = { s with bmResyncFo := fo, turn := none } := by
  unfold Flight.goRound
  rw [h]

theorem turnRound_none_found {i : Nat} (hi : i < number) (hroom : r.sndbufFilled = false)
    (hfind : bmFindNext r.found.toDrbdBitmap fo false = none) :
    turnRound capacity maxBioSize number false r fo i = .leave .done r.found.bmBits := by
  unfold turnRound
  rw [if_neg (fun h => Nat.not_le.2 hi h.2), if_neg (by rw [hroom]; decide), hfind]

/-- The last turn of a resync is not counted, but answered; a refused request is counted for ever. -/
theorem in_flight_drifts :
    (run (Flight.step 32768 8192) .start [.turn 8 64, .round firstRound, .round firstRound, .isInSync 0]
        = some ⟨0, 16, 4096, [], false, false, none⟩) ∧
      (run (Flight.step 32768 4096) .start [.turn 1 64, .round firstRound, .round firstRound, .negRsDreply 0]
        = some ⟨8, 0, 1, [], false, false, none⟩) ∧
      ¬ Accounted ⟨0, 16, 4096, [], false, false, none⟩ ∧ ¬ Accounted ⟨8, 0, 1, [], false, false, none⟩ := by
  refine ⟨?_, by decide, fun h => absurd (h.nonneg rfl) (by decide),
    fun h => absurd (h.drained rfl rfl) (by decide)⟩
  have hasked : run (Flight.step 32768 8192) .start [.turn 8 64, .round firstRound] =
      some ⟨0, 0, 2, [⟨0, 8192⟩], false, false, some ⟨8, 32, 2, false⟩⟩ := by decide
  have hpast : bmFindNext firstRound.found.toDrbdBitmap 2 false = none := find_dirtyBlocks_past (le_refl 2)
  have hgo : Flight.goRound ⟨0, 0, 2, [⟨0, 8192⟩], false, false, some ⟨8, 32, 2, false⟩⟩ 32768 8192
      ⟨8, 32, 2, false⟩ firstRound = ⟨0, 0, 4096, [⟨0, 8192⟩], false, false, none⟩ :=
    Flight.goRound_done (turnRound_none_found (by decide) rfl hpast)
  have hsplit : ([.turn 8 64, .round firstRound, .round firstRound, .isInSync 0] : List (FlightEvent 4096)) =
      [.turn 8 64, .round firstRound] ++ [.round firstRound, .isInSync 0] := rfl
  have hlast : Flight.step 32768 8192 ⟨0, 0, 2, [⟨0, 8192⟩], false, false, some ⟨8, 32, 2, false⟩⟩
      (.round firstRound) = some ⟨0, 0, 4096, [⟨0, 8192⟩], false, false, none⟩ := congrArg some hgo
  rw [hsplit, run_append, hasked, Option.bind_some, run, hlast]
  rfl

/-! ## How far the count can drift -/

/-- No turn wants more than `most` blocks, and `max-buffers` is at most `maxBuffers`. -/
def Limited (most maxBuffers : Nat) (_ : Flight) : FlightEvent n → Prop
  | .turn wanted mb => wanted ≤ most ∧ mb ≤ maxBuffers
  | _ => True

/-- All but the requests of one turn is counted; once they are lost, nothing more is asked for. -/
structure FlightRange (n most maxBuffers : Nat) (s : Flight) : Prop where
  upper : s.rsInFlight ≤ (maxBuffers / 2 + 8 * (most + 1) : Nat)
  lower : (s.sectors : Int) ≤ s.rsInFlight + 8 * s.i - s.rsSectIn ∨
    (s.sectors : Int) - (8 * (most + 1) : Nat) ≤ s.rsInFlight - s.rsSectIn ∧ s.i = 0 ∧
      (s.stopped = true ∨ n ≤ s.bmResyncFo)
  sectors : ∀ r ∈ s.asked, r.size % 512 = 0
  turn : ∀ t ∈ s.turn, t.i ≤ t.number + 1 ∧ (t.again = true → t.i < t.number) ∧ t.number ≤ most ∧
    (t.number : Int) ≤ t.mxb - s.rsInFlight ∧ t.mxb ≤ maxBuffers / 2
  idle : s.stopped = true → s.turn = none

/-- Past the last bit nothing is found. -/
theorem turnRound_past (maxBioSize number : Nat) (again : Bool) (i : Nat) (hfo : r.found.bmBits ≤ fo) :
    ∃ stop fo', turnRound capacity maxBioSize number again r fo i = .leave stop fo' ∧
      (fo' = fo ∨ fo' = r.found.bmBits) := by
  unfold turnRound
  split
  · exact ⟨_, _, rfl, .inl rfl⟩
  split
  · exact ⟨_, _, rfl, .inl rfl⟩
  cases hfind : bmFindNext r.found.toDrbdBitmap fo false with
  | none => exact ⟨_, _, rfl, .inr rfl⟩
  | some bit =>
      have hnext := bmFindNext_some hfind
      exact absurd (Nat.lt_of_le_of_lt hnext.ge hnext.lt) (Nat.not_lt_of_le hfo)

theorem turnRound_done (h : turnRound capacity maxBioSize number again r fo i = .leave .done fo') :
    r.found.bmBits ≤ fo' := by
  unfold turnRound at h
  split at h
  · by_cases hfo : r.found.bmBits ≤ fo
    · rw [if_pos hfo] at h
      cases h
      exact hfo
    · rw [if_neg hfo] at h
      cases h
  split at h
  · cases h
  split at h
  · cases h
    exact Nat.le_refl _
  dsimp only at h
  split at h
  · cases h
  split at h
  · cases h
  · split at h <;> cases h

theorem turnRound_interrupted : turnRound capacity maxBioSize number again r fo i ≠ .leave .interrupted fo' := by
  intro h
  unfold turnRound at h
  split at h
  · split at h <;> cases h
  split at h
  · cases h
  split at h
  · cases h
  dsimp only at h
  split at h
  · cases h
  split at h
  · cases h
  · split at h <;> cases h

variable {most maxBuffers : Nat}

theorem FlightRange.answer {k : Nat} {credit : Request → Nat} (hI : FlightRange n most maxBuffers s)
    (hcredit : ∀ r, r.size % 512 = 0 → credit r ≤ r.size >>> 9) (h : s.answer k credit = some s') :
    FlightRange n most maxBuffers s' := by
  obtain ⟨r, hr, heq⟩ := Option.map_eq_some_iff.1 h
  cases heq
  have hsum := sum_eraseIdx (fun r => r.size >>> 9) hr
  have hle := hcredit r (hI.sectors r (List.mem_of_getElem? hr))
  refine ⟨hI.upper, ?_, fun r hr => hI.sectors r (List.mem_of_mem_eraseIdx hr), hI.turn, hI.idle⟩
  have hlower := hI.lower
  unfold Flight.sectors Flight.i at hlower ⊢
  dsimp only at hsum ⊢
  rcases hlower with hall | ⟨hmiss, hlost⟩
  · exact .inl (by omega)
  · exact .inr ⟨by omega, hlost⟩

theorem FlightRange.startTurn (hI : FlightRange n most maxBuffers s) (hturn : s.turn = none)
    (hgoes : s.stopped = false) {wanted : Int} {mb : Nat} (hwanted : wanted ≤ most) (hmb : mb ≤ maxBuffers) :
    FlightRange n most maxBuffers (s.startTurn wanted mb) := by
  have hupper := hI.upper
  have hlower := hI.lower
  have hidle : s.i = 0 := by
    unfold Flight.i
    rw [hturn]
    rfl
  unfold Flight.startTurn Flight.drbdRsNumberRequests
  dsimp only
  generalize hnumber : (if ((mb / 2 : Nat) : Int) - (s.rsInFlight - s.rsSectIn) < wanted
    then ((mb / 2 : Nat) : Int) - (s.rsInFlight - s.rsSectIn) else wanted) = number
  have hroom : number ≤ ((mb / 2 : Nat) : Int) - (s.rsInFlight - s.rsSectIn) ∧ number ≤ most := by
    rw [← hnumber]
    split <;> omega
  have hstart : ∀ turn : Option RsTurn, (turn.map RsTurn.i).getD 0 = 0 →
      (∀ t ∈ turn, t.i ≤ t.number + 1 ∧ (t.again = true → t.i < t.number) ∧ t.number ≤ most ∧
        (t.number : Int) ≤ t.mxb - (s.rsInFlight - s.rsSectIn) ∧ t.mxb ≤ maxBuffers / 2) →
      FlightRange n most maxBuffers
        { s with rsSectIn := 0, rsInFlight := s.rsInFlight - s.rsSectIn, turn := turn } := by
    intro turn hzero hok
    refine ⟨?_, ?_, hI.sectors, hok, fun hstop => absurd hstop (by rw [hgoes]; exact Bool.false_ne_true)⟩
    · dsimp only
      omega
    · unfold Flight.i
      dsimp only
      rw [hzero]
      rw [hidle] at hlower
      change (s.sectors : Int) ≤ s.rsInFlight - s.rsSectIn + 8 * ((0 : Nat) : Int) - ((0 : Nat) : Int) ∨
        (s.sectors : Int) - (8 * (most + 1) : Nat) ≤ s.rsInFlight - s.rsSectIn - ((0 : Nat) : Int) ∧ 0 = 0 ∧
          (s.stopped = true ∨ n ≤ s.bmResyncFo)
      rcases hlower with hall | ⟨hmiss, _, hlost⟩
      · exact .inl (by omega)
      · exact .inr ⟨by omega, rfl, hlost⟩
  split
  · have hnone := hstart none rfl fun t ht => by cases ht
    rwa [← hturn] at hnone
  · refine hstart (some ⟨number.toNat, mb / 2, 0, false⟩) rfl fun t ht => ?_
    cases ht
    refine ⟨Nat.zero_le _, fun h => (by cases h), ?_, ?_, ?_⟩
    · show number.toNat ≤ most
      omega
    · show (number.toNat : Int) ≤ ((mb / 2 : Nat) : Int) - (s.rsInFlight - s.rsSectIn)
      omega
    · show mb / 2 ≤ maxBuffers / 2
      omega

theorem FlightRange.goRound {t : RsTurn} (hcap : n ≤ (capacity + 7) / 8)
    (hI : FlightRange n most maxBuffers s) (ht : s.turn = some t) :
    FlightRange n most maxBuffers (s.goRound capacity maxBioSize t r) := by
  obtain ⟨hmost, hagain, hnumber, hroom, hmxb⟩ := hI.turn t ht
  have hupper := hI.upper
  have hlower := hI.lower
  have hi : s.i = t.i := by
    unfold Flight.i
    rw [ht]
    rfl
  have hgoes : s.stopped = false := by
    cases hstop : s.stopped with
    | false => rfl
    | true => exact absurd (ht.symm.trans (hI.idle hstop)) nofun
  rw [hi, hgoes] at hlower
  unfold Flight.goRound
  cases hround : turnRound capacity maxBioSize t.number t.again r s.bmResyncFo t.i with
  | next again request i fo =>
      have hall : (s.sectors : Int) ≤ s.rsInFlight + 8 * t.i - s.rsSectIn := by
        rcases hlower with hall | ⟨_, _, hstop | hfo⟩
        · exact hall
        · cases hstop
        · have hpast : r.found.bmBits ≤ s.bmResyncFo := by rwa [r.found.bits]
          obtain ⟨stop, fo', hpast, _⟩ := turnRound_past maxBioSize t.number t.again t.i hpast
          rw [hpast] at hround
          cases hround
      cases request with
      | none =>
          obtain ⟨rfl, rfl, hlt⟩ := turnRound_none hround hagain
          refine ⟨hupper, .inl hall, hI.sectors, fun t' ht' => ?_, fun hstop => ?_⟩
          · cases ht'
            exact ⟨hmost, fun _ => hlt, hnumber, hroom, hmxb⟩
          · exact absurd hstop (by rw [hgoes]; exact Bool.false_ne_true)
      | some req =>
          obtain ⟨rfl, rfl, hmost', hsize, haligned⟩ := turnRound_some hcap hround hagain
          refine ⟨hupper, .inl ?_, fun r hr => ?_, fun t' ht' => ?_, fun hstop => ?_⟩
          · unfold Flight.sectors Flight.i at *
            dsimp only [Option.map_some, Option.getD_some, Option.toList_some]
            rw [List.singleton_append, List.map_cons, List.sum_cons]
            omega
          · rcases List.mem_cons.1 hr with rfl | hr
            · exact haligned
            · exact hI.sectors r hr
          · cases ht'
            exact ⟨hmost', fun h => (by cases h), hnumber, hroom, hmxb⟩
          · exact absurd hstop (by rw [hgoes]; exact Bool.false_ne_true)
  | leave stop fo =>
      -- what is lost, at most the blocks of this turn, if the pass is over
      have hlost : ∀ stopped, stopped = true ∨ n ≤ fo →
          FlightRange n most maxBuffers { s with bmResyncFo := fo, turn := none, stopped := stopped } := by
        intro stopped hend
        refine ⟨hupper, .inr ⟨?_, rfl, hend⟩, hI.sectors, fun t ht => (by cases ht), fun _ => rfl⟩
        change (s.sectors : Int) - (8 * (most + 1) : Nat) ≤ s.rsInFlight - s.rsSectIn
        omega
      cases stop with
      | requeue =>
          refine ⟨?_, ?_, hI.sectors, fun t ht => (by cases ht), fun _ => rfl⟩
          · dsimp only
            rw [Nat.shiftLeft_eq]
            omega
          · unfold Flight.i
            dsimp only [Option.map_none, Option.getD_none]
            change (s.sectors : Int) ≤ s.rsInFlight + (t.i <<< 3 : Nat) + 8 * ((0 : Nat) : Int) - s.rsSectIn ∨
              (s.sectors : Int) - (8 * (most + 1) : Nat) ≤ s.rsInFlight + (t.i <<< 3 : Nat) - s.rsSectIn ∧ 0 = 0 ∧
                (s.stopped = true ∨ n ≤ fo)
            rw [Nat.shiftLeft_eq]
            rcases hlower with hall | ⟨hmiss, hzero, hstop | hfo⟩
            · exact .inl (by omega)
            · cases hstop
            · have hpast : r.found.bmBits ≤ s.bmResyncFo := by rwa [r.found.bits]
              obtain ⟨stop, fo', hpast, hfo'⟩ := turnRound_past maxBioSize t.number t.again t.i hpast
              rw [hpast] at hround
              cases hround
              refine .inr ⟨by omega, rfl, .inr ?_⟩
              rcases hfo' with rfl | rfl
              · exact hfo
              · rw [r.found.bits]
      | done =>
          refine hlost s.stopped (.inr ?_)
          rw [← r.found.bits]
          exact turnRound_done hround
      | error => exact hlost true (.inl rfl)
      | interrupted => exact absurd hround turnRound_interrupted

theorem flightRange_step (hcap : n ≤ (capacity + 7) / 8) {ev : FlightEvent n}
    (hI : FlightRange n most maxBuffers s)
    (hc : Limited most maxBuffers s ev) (h : s.step capacity maxBioSize ev = some s') :
    FlightRange n most maxBuffers s' := by
  cases ev with
  | turn wanted mb =>
      simp only [Flight.step] at h
      split at h
      · rename_i hidle
        cases h
        exact hI.startTurn hidle.1 hidle.2.2 hc.1 hc.2
      · cases h
  | round r =>
      obtain ⟨t, ht, heq⟩ := Option.map_eq_some_iff.1 h
      cases heq
      exact hI.goRound hcap ht
  | rsDataReply k digest =>
      simp only [Flight.step] at h
      split at h
      · rename_i hdigest
        refine hI.answer (fun r hr => ?_) h
        simp only [Nat.shiftRight_eq_div_pow]
        omega
      · cases h
  | isInSync k => exact hI.answer (fun _ _ => Nat.le_refl _) h
  | negRsDreply k => exact hI.answer (fun _ _ => Nat.zero_le _) h
  | rsCancel k => exact hI.answer (fun _ _ => Nat.zero_le _) h
  | pause =>
      cases h
      exact ⟨hI.upper, hI.lower, hI.sectors, hI.turn, hI.idle⟩
  | resume =>
      cases h
      exact ⟨hI.upper, hI.lower, hI.sectors, hI.turn, hI.idle⟩

/-- What `drbd_rs_number_requests` may find, in any run and after any answers. -/
theorem rsInFlight_range {n capacity : Nat} (maxBioSize : Nat) (hcap : n ≤ (capacity + 7) / 8)
    {evs : List (FlightEvent n)} {s : Flight}
    (hc : Meets (Flight.step capacity maxBioSize) (Limited most maxBuffers) .start evs)
    (h : run (Flight.step capacity maxBioSize) .start evs = some s) (hturn : s.turn = none) :
    -(8 * (most + 1) : Nat) ≤ s.rsInFlight - s.rsSectIn ∧
      s.rsInFlight - s.rsSectIn ≤ (maxBuffers / 2 + 8 * (most + 1) : Nat) := by
  have hI : FlightRange n most maxBuffers s := run_invariant (flightRange_step hcap)
    ⟨Int.natCast_nonneg _, .inl (le_refl _), fun r hr => (by cases hr), fun t ht => (by cases ht), fun _ => rfl⟩ hc h
  have hlower := hI.lower
  have hupper := hI.upper
  unfold Flight.i at hlower
  rw [hturn] at hlower
  dsimp only [Option.map_none, Option.getD_none] at hlower
  omega

end Drbd.ResyncRequest
