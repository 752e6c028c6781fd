import Drbd.Framing.Asender

/-!
# Reassembling the packets of the meta socket

However the reads split the stream, the functions see what they would see if every packet came whole.
-/

namespace Drbd.Framing

open Lib Xfer

variable {σ : Type} {v : Nat} {fn : AsenderFn σ} {w world : σ} {stream more chunk : List UInt8}
  {s : Asender σ} {r : Round}
  {cmd : AsenderPacket} {pi : PacketInfo} {why : Refusal} {rbuf : Nat → UInt8}

/-! ## Whole packets -/

/-- What a header announces, or what is wrong with it. -/
def checkHeader (v : Nat) (header : List UInt8) : Except Refusal (AsenderPacket × PacketInfo) :=
  match decodeHeader v header with
  | none => .error .badHeader
  | some pi =>
      match AsenderPacket.ofWire pi.cmd with
      | none => .error .unexpectedPacket
      | some cmd => if pi.size = asenderTbl cmd then .ok (cmd, pi) else .error .wrongSize

/-- The stream packet by packet, as far as there are whole ones; the first refusal ends it. -/
def wholePackets (v : Nat) (fn : AsenderFn σ) (w : σ) (stream : List UInt8) : Option Refusal × σ :=
  if stream.length < drbdHeaderSize v then (none, w)
  else
    match checkHeader v (stream.take (drbdHeaderSize v)) with
    | .error why => (some why, w)
    | .ok (cmd, pi) =>
        if stream.length < drbdHeaderSize v + asenderTbl cmd then (none, w)
        else
          match fn cmd pi ((stream.drop (drbdHeaderSize v)).take (asenderTbl cmd)) w with
          | (true, w) => (some .failed, w)
          | (false, w) => wholePackets v fn w (stream.drop (drbdHeaderSize v + asenderTbl cmd))
termination_by stream.length
decreasing_by
  have hpos : 0 < drbdHeaderSize v := by
    unfold drbdHeaderSize
    split <;> decide
  rw [List.length_drop]
  omega

theorem drbdHeaderSize_pos (v : Nat) : 0 < drbdHeaderSize v := by
  unfold drbdHeaderSize
  split <;> decide

theorem asenderTbl_le (cmd : AsenderPacket) : asenderTbl cmd ≤ 24 := by
  cases cmd <;> decide

theorem wholePackets_short (h : stream.length < drbdHeaderSize v) : wholePackets v fn w stream = (none, w) := by
  rw [wholePackets, if_pos h]

theorem wholePackets_refused (h : drbdHeaderSize v ≤ stream.length)
    (hcheck : checkHeader v (stream.take (drbdHeaderSize v)) = .error why) :
    wholePackets v fn w stream = (some why, w) := by
  rw [wholePackets, if_neg (Nat.not_lt.2 h), hcheck]

theorem wholePackets_incomplete (h : drbdHeaderSize v ≤ stream.length)
    (hcheck : checkHeader v (stream.take (drbdHeaderSize v)) = .ok (cmd, pi))
    (hlt : stream.length < drbdHeaderSize v + asenderTbl cmd) : wholePackets v fn w stream = (none, w) := by
  rw [wholePackets, if_neg (Nat.not_lt.2 h), hcheck]
  exact if_pos hlt

theorem wholePackets_packet (hcheck : checkHeader v (stream.take (drbdHeaderSize v)) = .ok (cmd, pi))
    (h : drbdHeaderSize v + asenderTbl cmd ≤ stream.length) :
    wholePackets v fn w stream =
      match fn cmd pi ((stream.drop (drbdHeaderSize v)).take (asenderTbl cmd)) w with
      | (true, w) => (some .failed, w)
      | (false, w) => wholePackets v fn w (stream.drop (drbdHeaderSize v + asenderTbl cmd)) := by
  rw [wholePackets, if_neg (by omega), hcheck]
  exact if_neg (Nat.not_lt.2 h)

/-! ## The buffer -/

theorem length_contents (s : Asender σ) (off n : Nat) : (s.contents off n).length = n := by
  unfold Asender.contents
  rw [List.length_map, List.length_range]

theorem getElem_contents (s : Asender σ) {off n i : Nat} (h : i < (s.contents off n).length) :
    (s.contents off n)[i] = s.rbuf (off + i) := by
  simp only [Asender.contents, List.getElem_map, List.getElem_range]

theorem take_contents (s : Asender σ) (off : Nat) {m n : Nat} (h : m ≤ n) :
    (s.contents off n).take m = s.contents off m := by
  unfold Asender.contents
  rw [← List.map_take, List.take_range, Nat.min_eq_left h]

theorem drop_contents (s : Asender σ) (m n : Nat) : (s.contents 0 n).drop m = s.contents m (n - m) := by
  refine List.ext_getElem (by rw [List.length_drop, length_contents, length_contents]) fun i hi hi' => ?_
  rw [List.getElem_drop, getElem_contents, getElem_contents, Nat.zero_add]

/-- What was stored follows what was there. -/
theorem contents_store (s : Asender σ) (chunk : List UInt8) :
    (s.store chunk).contents 0 (s.buf + chunk.length) = s.contents 0 s.buf ++ chunk := by
  refine List.ext_getElem (by rw [List.length_append, length_contents, length_contents]) fun i hi hi' => ?_
  rw [getElem_contents, Nat.zero_add]
  rw [length_contents] at hi
  unfold Asender.store
  dsimp only
  by_cases hlt : i < s.buf
  · rw [if_neg (fun h => Nat.not_lt.2 h.1 hlt), List.getElem_append_left (by rw [length_contents]; exact hlt),
      getElem_contents, Nat.zero_add]
  · have hle := Nat.le_of_not_lt hlt
    rw [if_pos ⟨hle, hi⟩, List.getElem_append_right (by rw [length_contents]; exact hle),
      List.getD_eq_getElem _ _ (by omega)]
    simp only [length_contents]

/-! ## Between two reads -/

/-- In the middle of a header or of a packet whose header is known. -/
structure Reading (v : Nat) (s : Asender σ) : Prop where
  buf : s.buf = s.received
  lt : s.received < s.expect
  header : s.cmd = none → s.expect = drbdHeaderSize v
  packet : ∀ cmd, s.cmd = some cmd → s.expect = drbdHeaderSize v + asenderTbl cmd ∧
    drbdHeaderSize v ≤ s.received ∧ checkHeader v (s.contents 0 (drbdHeaderSize v)) = .ok (cmd, s.pi)

/-- With the packets in `consumed` the loop is where reading whole packets is: what is in the buffer remains to be
read, or the same packet was refused. -/
inductive Follows (v : Nat) (fn : AsenderFn σ) (world : σ) (consumed : List UInt8) (s : Asender σ) : Prop
  | reading (hended : ∀ why, s.ended ≠ some (.refused why)) (hreading : Reading v s)
      (hsame : ∀ more, wholePackets v fn world (consumed ++ more) =
        wholePackets v fn s.world (s.contents 0 s.received ++ more))
  | refused (why : Refusal) (hended : s.ended = some (.refused why)) (hle : s.received ≤ drbdHeaderSize v + 24)
      (hsame : wholePackets v fn world consumed = (some why, s.world))

variable {consumed : List UInt8}

/-- The packet that is in the buffer, before anything else that may come. -/
theorem wholePackets_contents (hcheck : checkHeader v (s.contents 0 (drbdHeaderSize v)) = .ok (cmd, pi))
    (hfull : s.received = drbdHeaderSize v + asenderTbl cmd) (more : List UInt8) :
    wholePackets v fn w (s.contents 0 s.received ++ more) =
      match fn cmd pi (s.contents (drbdHeaderSize v) (asenderTbl cmd)) w with
      | (true, w) => (some .failed, w)
      | (false, w) => wholePackets v fn w more := by
  have hlen : (s.contents 0 s.received).length = drbdHeaderSize v + asenderTbl cmd := by
    rw [length_contents, hfull]
  have hheader : (s.contents 0 s.received ++ more).take (drbdHeaderSize v) = s.contents 0 (drbdHeaderSize v) := by
    rw [List.take_append_of_le_length (by omega), take_contents _ _ (by omega)]
  have hdata : ((s.contents 0 s.received ++ more).drop (drbdHeaderSize v)).take (asenderTbl cmd) =
      s.contents (drbdHeaderSize v) (asenderTbl cmd) := by
    rw [List.drop_append_of_le_length (by omega), drop_contents,
      List.take_append_of_le_length (by rw [length_contents]; omega), take_contents _ _ (by omega)]
  have hrest : (s.contents 0 s.received ++ more).drop (drbdHeaderSize v + asenderTbl cmd) = more := by
    rw [← hlen, List.drop_left]
  rw [wholePackets_packet (by rw [hheader, hcheck]) (by rw [List.length_append]; omega), hdata, hrest]

theorem takePacket_follows (hended : s.ended = none) (hbuf : s.buf = s.received) (hcmd : s.cmd = some cmd)
    (hexpect : s.expect = drbdHeaderSize v + asenderTbl cmd) (hge : drbdHeaderSize v ≤ s.received)
    (hle : s.received ≤ s.expect) (hcheck : checkHeader v (s.contents 0 (drbdHeaderSize v)) = .ok (cmd, s.pi))
    (hsame : ∀ more, wholePackets v fn world (consumed ++ more) =
      wholePackets v fn s.world (s.contents 0 s.received ++ more)) :
    Follows v fn world consumed (s.takePacket v fn) := by
  unfold Asender.takePacket
  by_cases hfull : s.received = s.expect
  · have hwhole := fun more => (hsame more).trans (wholePackets_contents hcheck (hfull.trans hexpect) more)
    rw [if_pos hfull, hcmd]
    dsimp only
    rcases hfn : fn cmd s.pi (s.contents (drbdHeaderSize v) (asenderTbl cmd)) s.world with ⟨err, w⟩
    rw [hfn] at hwhole
    cases err with
    | true =>
        have htbl := asenderTbl_le cmd
        refine .refused .failed rfl ?_ ?_
        · dsimp only [Asender.finish]
          omega
        · rw [← List.append_nil consumed]
          exact hwhole []
    | false =>
        refine .reading (fun why h => ?_) ⟨rfl, drbdHeaderSize_pos v, fun _ => rfl, fun _ h => ?_⟩ hwhole
        · dsimp only at h
          rw [hended] at h
          cases h
        · cases h
  · rw [if_neg hfull]
    refine .reading (fun why h => ?_) ⟨hbuf, by omega, fun h => ?_, fun cmd' h => ?_⟩ hsame
    · rw [hended] at h
      cases h
    · rw [hcmd] at h
      cases h
    · rw [hcmd] at h
      cases h
      exact ⟨hexpect, hge, hcheck⟩

theorem takeHeader_refused (hhere : s.received = s.expect ∧ s.cmd = none)
    (hcheck : checkHeader v (s.contents 0 (drbdHeaderSize v)) = .error why) :
    (s.takeHeader v).ended = some (.refused why) ∧ (s.takeHeader v).world = s.world ∧
      (s.takeHeader v).received = s.received := by
  unfold checkHeader at hcheck
  unfold Asender.takeHeader
  dsimp only
  rw [if_pos hhere]
  rcases hdecode : decodeHeader v (s.contents 0 (drbdHeaderSize v)) with _ | pi
  · rw [hdecode] at hcheck
    cases hcheck
    exact ⟨rfl, rfl, rfl⟩
  · rw [hdecode] at hcheck
    dsimp only at hcheck ⊢
    rcases hwire : AsenderPacket.ofWire pi.cmd with _ | cmd
    · rw [hwire] at hcheck
      cases hcheck
      exact ⟨rfl, rfl, rfl⟩
    · rw [hwire] at hcheck
      dsimp only at hcheck ⊢
      split at hcheck
      · cases hcheck
      · cases hcheck
        rw [if_pos (by omega)]
        exact ⟨rfl, rfl, rfl⟩

theorem takeHeader_ok (hhere : s.received = s.expect ∧ s.cmd = none)
    (hcheck : checkHeader v (s.contents 0 (drbdHeaderSize v)) = .ok (cmd, pi)) :
    s.takeHeader v = { s with pi := pi, cmd := some cmd, expect := drbdHeaderSize v + asenderTbl cmd } := by
  unfold checkHeader at hcheck
  unfold Asender.takeHeader
  dsimp only
  rw [if_pos hhere]
  rcases hdecode : decodeHeader v (s.contents 0 (drbdHeaderSize v)) with _ | pi'
  · rw [hdecode] at hcheck
    cases hcheck
  · rw [hdecode] at hcheck
    dsimp only at hcheck ⊢
    rcases hwire : AsenderPacket.ofWire pi'.cmd with _ | cmd'
    · rw [hwire] at hcheck
      cases hcheck
    · rw [hwire] at hcheck
      dsimp only at hcheck ⊢
      split at hcheck
      · cases hcheck
        rw [if_neg (by omega)]
      · cases hcheck

/-- A read that returns no more than was asked for. -/
theorem gotBytes_follows (hended : s.ended = none) (hreading : Reading v s)
    (hle : s.received + chunk.length ≤ s.expect)
    (hsame : ∀ more, wholePackets v fn world (consumed ++ more) =
      wholePackets v fn s.world (s.contents 0 s.received ++ more)) :
    Follows v fn world (consumed ++ chunk) (s.gotBytes v fn chunk) := by
  obtain ⟨hbuf, hlt, hheader, hpacket⟩ := hreading
  have hcontents : (s.store chunk).contents 0 (s.store chunk).received = s.contents 0 s.received ++ chunk := by
    have h := contents_store s chunk
    rw [hbuf] at h
    exact h
  have hsame' : ∀ more, wholePackets v fn world (consumed ++ chunk ++ more) =
      wholePackets v fn (s.store chunk).world ((s.store chunk).contents 0 (s.store chunk).received ++ more) := by
    intro more
    rw [hcontents, List.append_assoc, hsame, List.append_assoc]
    rfl
  have hbuf' : (s.store chunk).buf = (s.store chunk).received := congrArg (· + chunk.length) hbuf
  have hended' : (s.store chunk).ended = none := hended
  -- the bytes of the header stay when those of the packet come
  have hpacket' : ∀ cmd, (s.store chunk).cmd = some cmd →
      (s.store chunk).expect = drbdHeaderSize v + asenderTbl cmd ∧ drbdHeaderSize v ≤ (s.store chunk).received ∧
        checkHeader v ((s.store chunk).contents 0 (drbdHeaderSize v)) = .ok (cmd, (s.store chunk).pi) := by
    intro cmd hcmd
    obtain ⟨hexpect, hge, hcheck⟩ := hpacket cmd hcmd
    have hge' : drbdHeaderSize v ≤ (s.store chunk).received := Nat.le_trans hge (Nat.le_add_right _ _)
    refine ⟨hexpect, hge', ?_⟩
    rw [← take_contents _ _ hge', hcontents, List.take_append_of_le_length (by rw [length_contents]; exact hge),
      take_contents _ _ hge]
    exact hcheck
  have hle' : (s.store chunk).received ≤ (s.store chunk).expect := hle
  have hheader' : (s.store chunk).cmd = none → (s.store chunk).expect = drbdHeaderSize v := hheader
  unfold Asender.gotBytes
  dsimp only
  clear hsame hheader hpacket hbuf hended hcontents hlt hle
  generalize s.store chunk = t at *
  rcases hcmd : t.cmd with _ | cmd
  · by_cases hfull : t.received = t.expect
    · rcases hcheck : checkHeader v (t.contents 0 (drbdHeaderSize v)) with why | ⟨cmd, pi⟩
      · obtain ⟨hended, hworld, hreceived⟩ := takeHeader_refused ⟨hfull, hcmd⟩ hcheck
        have hhs : t.received = drbdHeaderSize v := hfull.trans (hheader' hcmd)
        have hwhole := hsame' []
        rw [List.append_nil, List.append_nil, hhs] at hwhole
        have hrefused : wholePackets v fn t.world (t.contents 0 (drbdHeaderSize v)) = (some why, t.world) :=
          wholePackets_refused (by rw [length_contents]) (by rw [take_contents _ _ (Nat.le_refl _)]; exact hcheck)
        rw [if_pos (by rw [hended]; rfl)]
        exact .refused why hended (by omega) (by rw [hwhole, hrefused, hworld])
      · have hhs := hheader' hcmd
        rw [takeHeader_ok ⟨hfull, hcmd⟩ hcheck, if_neg (by rw [hended']; exact Bool.noConfusion)]
        refine takePacket_follows hended' hbuf' rfl rfl ?_ ?_ hcheck hsame'
        · exact Nat.le_of_eq (hfull.trans hhs).symm
        · dsimp only
          omega
    · have hthere : t.takeHeader v = t := if_neg fun h => hfull h.1
      have hpass : t.takePacket v fn = t := if_neg hfull
      rw [hthere, hpass, ite_self]
      refine .reading (fun why h => ?_) ⟨hbuf', by omega, hheader', hpacket'⟩ hsame'
      rw [hended'] at h
      cases h
  · have hthere : t.takeHeader v = t := if_neg fun h => by rw [hcmd] at h; cases h.2
    obtain ⟨hexpect, hge, hcheck⟩ := hpacket' cmd hcmd
    rw [hthere, if_neg (by rw [hended']; exact Bool.noConfusion)]
    exact takePacket_follows hended' hbuf' hcmd hexpect hge hle' hcheck hsame'

/-! ## Rounds -/

/-- Nothing was read, and no function was called. -/
structure Untouched (s t : Asender σ) : Prop where
  cmd : t.cmd = s.cmd
  pi : t.pi = s.pi
  rbuf : t.rbuf = s.rbuf
  buf : t.buf = s.buf
  received : t.received = s.received
  expect : t.expect = s.expect
  world : t.world = s.world
  stream : t.stream = s.stream

variable {t : Asender σ}

theorem Untouched.contents (h : Untouched s t) (off n : Nat) : t.contents off n = s.contents off n := by
  unfold Asender.contents
  rw [h.rbuf]

theorem Untouched.reading (h : Untouched s t) (hreading : Reading v s) : Reading v t := by
  obtain ⟨hbuf, hlt, hheader, hpacket⟩ := hreading
  refine ⟨?_, ?_, ?_, ?_⟩
  · rw [h.buf, h.received, hbuf]
  · rw [h.received, h.expect]
    exact hlt
  · rw [h.cmd, h.expect]
    exact hheader
  · rw [h.cmd, h.expect, h.received, h.contents, h.pi]
    exact hpacket

/-- What one round can do: it leaves the packets alone, or it reads something. -/
theorem round_cases (hended : s.ended = none) (r : Round) :
    (Untouched s (s.round v fn r) ∧ ∀ why, (s.round v fn r).ended ≠ some (.refused why)) ∨
    (∃ t chunk more, Untouched s t ∧ t.ended = none ∧ r.recv = .bytes more ∧ chunk ≠ [] ∧
      chunk = s.stream.take (min (more + 1) (s.expect - s.received)) ∧ s.round v fn r = t.gotBytes v fn chunk) := by
  have hstay : ∀ {e : Option Ending} {ping send : Bool}, (∀ why, e ≠ some (.refused why)) →
      Untouched s { s with pingTimeoutActive := ping, sendPing := send, ended := e } ∧
        ∀ why, ({ s with pingTimeoutActive := ping, sendPing := send, ended := e } : Asender σ).ended ≠
          some (.refused why) := fun he => ⟨⟨rfl, rfl, rfl, rfl, rfl, rfl, rfl, rfl⟩, he⟩
  have hnone : ∀ why, s.ended ≠ some (.refused why) := fun why h => by rw [hended] at h; cases h
  unfold Asender.round
  dsimp only
  split
  · exact .inl (hstay (by simp))
  split
  · exact .inl (hstay (by simp))
  split
  · exact .inl (hstay (by simp))
  split
  · exact .inl (hstay hnone)
  rcases hrecv : r.recv with more | left | recent | _ | _
  · dsimp only [Asender.receive]
    rcases htake : s.stream.take (min (more + 1) (s.expect - s.received)) with _ | ⟨byte, chunk⟩
    · exact .inl (hstay (by simp))
    · exact .inr ⟨{ s with
          sendPing := false
          pingTimeoutActive := s.pingTimeoutActive || (s.sendPing || r.pingRequest) },
        byte :: chunk, more, ⟨rfl, rfl, rfl, rfl, rfl, rfl, rfl, rfl⟩, hended, rfl, by simp, htake.symm, rfl⟩
  · refine .inl (hstay ?_)
    cases left <;> simp
  · refine .inl ?_
    dsimp only [Asender.receive]
    split
    · exact hstay hnone
    split
    · exact hstay (by simp)
    · exact hstay hnone
  · exact .inl (hstay hnone)
  · exact .inl (hstay (by simp))

theorem takeHeader_frame (v : Nat) (s : Asender σ) :
    (s.takeHeader v).rbuf = s.rbuf ∧ (s.takeHeader v).stream = s.stream := by
  unfold Asender.takeHeader
  dsimp only
  split
  · split
    · exact ⟨rfl, rfl⟩
    · split
      · exact ⟨rfl, rfl⟩
      · split <;> exact ⟨rfl, rfl⟩
  · exact ⟨rfl, rfl⟩

theorem takePacket_frame (v : Nat) (fn : AsenderFn σ) (s : Asender σ) :
    (s.takePacket v fn).rbuf = s.rbuf ∧ (s.takePacket v fn).stream = s.stream := by
  unfold Asender.takePacket
  split
  · split
    · exact ⟨rfl, rfl⟩
    · dsimp only
      split <;> exact ⟨rfl, rfl⟩
  · exact ⟨rfl, rfl⟩

theorem gotBytes_frame (v : Nat) (fn : AsenderFn σ) (s : Asender σ) (chunk : List UInt8) :
    (s.gotBytes v fn chunk).rbuf = (s.store chunk).rbuf ∧
      (s.gotBytes v fn chunk).stream = s.stream.drop chunk.length := by
  obtain ⟨hrbuf, hstream⟩ := takeHeader_frame v (s.store chunk)
  unfold Asender.gotBytes
  dsimp only
  split
  · exact ⟨hrbuf, hstream⟩
  · obtain ⟨hrbuf', hstream'⟩ := takePacket_frame v fn ((s.store chunk).takeHeader v)
    exact ⟨hrbuf'.trans hrbuf, hstream'.trans hstream⟩

/-- What holds after every round: the bytes so far are the packets so far, and the buffer is written in its first bytes
only. -/
structure Reassembled (v : Nat) (fn : AsenderFn σ) (world : σ) (stream : List UInt8) (rbuf : Nat → UInt8)
    (s : Asender σ) : Prop where
  follows : ∃ consumed, stream = consumed ++ s.stream ∧ Follows v fn world consumed s
  frame : ∀ i, drbdHeaderSize v + 24 ≤ i → s.rbuf i = rbuf i

theorem Reading.expect_le (h : Reading v s) : s.expect ≤ drbdHeaderSize v + 24 := by
  rcases hcmd : s.cmd with _ | cmd
  · rw [h.header hcmd]
    exact Nat.le_add_right _ _
  · rw [(h.packet cmd hcmd).1]
    exact Nat.add_le_add_left (asenderTbl_le cmd) _

theorem start_reassembled (v : Nat) (fn : AsenderFn σ) (rbuf : Nat → UInt8) (world : σ) (stream : List UInt8) :
    Reassembled v fn world stream rbuf (.start v rbuf world stream) := by
  refine ⟨⟨[], rfl, .reading (fun why h => by cases h) ⟨rfl, drbdHeaderSize_pos v, fun _ => rfl, fun _ h => by cases h⟩
    fun more => rfl⟩, fun _ _ => rfl⟩

/-- A round keeps it. -/
theorem step_reassembled (hI : Reassembled v fn world stream rbuf s) (h : s.step v fn r = some t) :
    Reassembled v fn world stream rbuf t := by
  obtain ⟨⟨consumed, hstream, hfollows⟩, hframe⟩ := hI
  unfold Asender.step at h
  split at h
  · cases h
  rename_i hsome
  cases h
  have hended : s.ended = none := by simpa using hsome
  rcases hfollows with ⟨_, hreading, hsame⟩ | ⟨why, hrefused, _, _⟩
  · rcases @round_cases σ v fn s hended r with ⟨huntouched, hended'⟩ |
      ⟨u, chunk, more, huntouched, hended', _, _, hchunk, heq⟩
    · refine ⟨⟨consumed, by rw [huntouched.stream]; exact hstream,
        .reading hended' (huntouched.reading hreading) ?_⟩, ?_⟩
      · intro more
        rw [huntouched.world, huntouched.contents, huntouched.received]
        exact hsame more
      · rw [huntouched.rbuf]
        exact hframe
    · have hlen : s.received + chunk.length ≤ s.expect := by
        have hlt := hreading.lt
        rw [hchunk, List.length_take]
        omega
      have hexpect := hreading.expect_le
      obtain ⟨hrbuf, hrest⟩ := gotBytes_frame v fn u chunk
      rw [heq]
      refine ⟨⟨consumed ++ chunk, ?_, gotBytes_follows hended' (huntouched.reading hreading) ?_ ?_⟩, fun i hi => ?_⟩
      · have hprefix : s.stream = chunk ++ s.stream.drop chunk.length := by
          have happend := List.take_append_drop (min (more + 1) (s.expect - s.received)) s.stream
          rw [← hchunk] at happend
          conv_lhs => rw [← happend]
          conv_rhs => rw [← happend, List.drop_left]
        rw [hrest, huntouched.stream, List.append_assoc, ← hprefix]
        exact hstream
      · rw [huntouched.received, huntouched.expect]
        exact hlen
      · intro more
        rw [huntouched.world, huntouched.contents, huntouched.received]
        exact hsame more
      · have hbuf := huntouched.buf.trans hreading.buf
        rw [hrbuf]
        dsimp only [Asender.store]
        rw [if_neg (by omega), huntouched.rbuf]
        exact hframe i hi
  · rw [hended] at hrefused
    cases hrefused

/-! ## What is refused -/

def RightMagic (v : Nat) (header : List UInt8) : Prop :=
  if 100 ≤ v then field header 0 4 = DRBD_MAGIC_100
  else field header 0 2 = DRBD_MAGIC_BIG ∨ field header 0 4 = DRBD_MAGIC

/-- A header with a wrong magic number, padding that is not zero, an unknown command or a length that is not the
command's. -/
def BadHeader (v : Nat) (header : List UInt8) : Prop :=
  ¬ RightMagic v header ∨ (100 ≤ v ∧ field header 12 4 ≠ 0) ∨
    ∃ pi, decodeHeader v header = some pi ∧ (AsenderPacket.ofWire pi.cmd = none ∨
      ∃ cmd, AsenderPacket.ofWire pi.cmd = some cmd ∧ pi.size ≠ asenderTbl cmd)

/-- A stream with such a header where a packet begins. -/
inductive Corrupt (v : Nat) : List UInt8 → Prop
  | header {stream : List UInt8} (hlen : drbdHeaderSize v ≤ stream.length)
      (hbad : BadHeader v (stream.take (drbdHeaderSize v))) : Corrupt v stream
  | packet {stream : List UInt8} {cmd : AsenderPacket} {pi : PacketInfo}
      (hcheck : checkHeader v (stream.take (drbdHeaderSize v)) = .ok (cmd, pi))
      (hlen : drbdHeaderSize v + asenderTbl cmd ≤ stream.length)
      (hrest : Corrupt v (stream.drop (drbdHeaderSize v + asenderTbl cmd))) : Corrupt v stream

theorem decodeHeader_eq_none (v : Nat) (header : List UInt8) :
    decodeHeader v header = none ↔ ¬ RightMagic v header ∨ (100 ≤ v ∧ field header 12 4 ≠ 0) := by
  unfold decodeHeader RightMagic drbdHeaderSize
  dsimp only
  by_cases hnew : 100 ≤ v
  · simp only [hnew, true_and]
    by_cases hmagic : field header 0 4 = DRBD_MAGIC_100
    · by_cases hpad : field header 12 4 = 0 <;> simp [hmagic, hpad]
    · simp [hmagic]
  · simp only [hnew, false_and, or_false]
    by_cases hbig : field header 0 2 = DRBD_MAGIC_BIG
    · simp [hbig]
    · by_cases hmagic : field header 0 4 = DRBD_MAGIC <;> simp [hbig, hmagic]

theorem checkHeader_error_iff (v : Nat) (header : List UInt8) :
    (∃ why, checkHeader v header = .error why) ↔ BadHeader v header := by
  have hnone := decodeHeader_eq_none v header
  unfold checkHeader BadHeader
  rw [← or_assoc, ← hnone]
  rcases decodeHeader v header with _ | pi
  · exact ⟨fun _ => .inl rfl, fun _ => ⟨_, rfl⟩⟩
  · dsimp only
    rcases hwire : AsenderPacket.ofWire pi.cmd with _ | cmd
    · exact ⟨fun _ => .inr ⟨pi, rfl, .inl hwire⟩, fun _ => ⟨_, rfl⟩⟩
    · dsimp only
      by_cases hsize : pi.size = asenderTbl cmd
      · rw [if_pos hsize]
        constructor
        · rintro ⟨why, h⟩
          cases h
        · rintro (h | ⟨pi', hpi, hbad⟩)
          · cases h
          · cases hpi
            rcases hbad with hbad | ⟨cmd', hcmd, hne⟩
            · rw [hwire] at hbad
              cases hbad
            · rw [hwire] at hcmd
              cases hcmd
              exact absurd hsize hne
      · rw [if_neg hsize]
        exact ⟨fun _ => .inr ⟨pi, rfl, .inr ⟨cmd, hwire, hsize⟩⟩, fun _ => ⟨_, rfl⟩⟩

theorem Corrupt.refused (h : Corrupt v stream) (fn : AsenderFn σ) (w : σ) : (wholePackets v fn w stream).1.isSome := by
  induction h generalizing w with
  | header hlen hbad =>
      obtain ⟨why, hcheck⟩ := (checkHeader_error_iff _ _).2 hbad
      rw [wholePackets_refused hlen hcheck]
      rfl
  | packet hcheck hlen _ ih =>
      rw [wholePackets_packet hcheck hlen]
      split
      · rfl
      · exact ih _

/-- A refusal that is not a failure of a function is one of a header. -/
theorem corrupt_of_refused (h : (wholePackets v fn w stream).1 = some why) (hwhy : why ≠ .failed) :
    Corrupt v stream := by
  induction hn : stream.length using Nat.strong_induction_on generalizing stream w with
  | _ n ih =>
      by_cases hlen : drbdHeaderSize v ≤ stream.length
      · rcases hcheck : checkHeader v (stream.take (drbdHeaderSize v)) with why' | ⟨cmd, pi⟩
        · exact .header hlen ((checkHeader_error_iff _ _).1 ⟨_, hcheck⟩)
        · by_cases hfull : drbdHeaderSize v + asenderTbl cmd ≤ stream.length
          · rw [wholePackets_packet hcheck hfull] at h
            split at h
            · cases h
              exact absurd rfl hwhy
            · have hpos := drbdHeaderSize_pos v
              refine .packet hcheck hfull (ih _ ?_ h rfl)
              rw [List.length_drop]
              omega
          · rw [wholePackets_incomplete hlen hcheck (Nat.lt_of_not_le hfull)] at h
            cases h
      · rw [wholePackets_short (Nat.lt_of_not_le hlen)] at h
        cases h

/-! ## However the reads split the stream -/

/-- The refusal that ended the loop, if one did. -/
def Asender.refusal (s : Asender σ) : Option Refusal :=
  match s.ended with
  | some (.refused why) => some why
  | _ => none

theorem Follows.whole {consumed : List UInt8} (h : Follows v fn world consumed s) :
    wholePackets v fn world consumed = (s.refusal, s.world) ∧ s.received ≤ drbdHeaderSize v + 24 := by
  unfold Asender.refusal
  rcases h with ⟨hended, hreading, hsame⟩ | ⟨why, hended, hle, hsame⟩
  · have hnone : (match s.ended with | some (.refused why) => some why | _ => none) = none := by
      split
      · exact absurd ‹_› (hended _)
      · rfl
    have hrest : wholePackets v fn s.world (s.contents 0 s.received) = (none, s.world) := by
      rcases hcmd : s.cmd with _ | cmd
      · have hlt := hreading.lt
        rw [hreading.header hcmd] at hlt
        exact wholePackets_short (by rw [length_contents]; exact hlt)
      · obtain ⟨hexpect, hge, hcheck⟩ := hreading.packet cmd hcmd
        have hlt := hreading.lt
        exact wholePackets_incomplete (by rw [length_contents]; exact hge)
          (by rw [take_contents _ _ hge]; exact hcheck) (by rw [length_contents]; omega)
    have hwhole := hsame []
    rw [List.append_nil, List.append_nil, hrest] at hwhole
    exact ⟨by rw [hnone]; exact hwhole, Nat.le_trans (Nat.le_of_lt hreading.lt) hreading.expect_le⟩
  · rw [hended]
    exact ⟨hsame, hle⟩

/-- The ends of a round that reads nothing. -/
theorem interrupted_round (hended : s.ended = none) (hrecv : r.recv = .eintr ∨ ∃ recent, r.recv = .eagain recent) :
    Untouched s (s.round v fn r) ∧ ∀ e, (s.round v fn r).ended = some e →
      e = .stopped ∨ e = .sendPingFailed ∨ e = .finishPeerReqsFailed ∨
        (e = .pingAckLate ∧ r.recv = .eagain false ∧
          (s.pingTimeoutActive = true ∨ s.sendPing = true ∨ r.pingRequest = true)) := by
  have hnone : ∀ e, s.ended = some e → False := fun e h => by rw [hended] at h; cases h
  constructor
  · rcases @round_cases σ v fn s hended r with ⟨huntouched, _⟩ | ⟨_, _, more, _, _, hbytes, _⟩
    · exact huntouched
    · rw [hbytes] at hrecv
      rcases hrecv with h | ⟨_, h⟩ <;> cases h
  · intro e he
    unfold Asender.round at he
    dsimp only at he
    split at he
    · cases he
      exact .inl rfl
    split at he
    · cases he
      exact .inr (.inl rfl)
    split at he
    · cases he
      exact .inr (.inr (.inl rfl))
    split at he
    · exact (hnone e he).elim
    rcases hrecv with hrecv | ⟨recent, hrecv⟩
    · rw [hrecv] at he
      exact (hnone e he).elim
    · rw [hrecv] at he ⊢
      dsimp only [Asender.receive] at he
      split at he
      · exact (hnone e he).elim
      rename_i hrecent
      split at he
      · rename_i hping
        cases he
        simp only [Bool.or_eq_true] at hping
        exact .inr (.inr (.inr ⟨rfl, by simpa using hrecent, hping⟩))
      · exact (hnone e he).elim

/-- After any rounds the functions, whatever they do, have been called as if every packet so far had come whole. The
stream ended the loop exactly if a header is bad or a function failed; at most one packet is in the buffer. A read that
brings nothing leaves all of this alone, and ends the loop only if a ping was not answered in time. -/
theorem asender_reassembles (v : Nat) (fn : AsenderFn σ) :
    (∀ (rbuf : Nat → UInt8) (world : σ) (stream : List UInt8) (rounds : List Round) (s : Asender σ),
      run (Asender.step v fn) (.start v rbuf world stream) rounds = some s →
      ∃ consumed, stream = consumed ++ s.stream ∧
        wholePackets v fn world consumed = (s.refusal, s.world) ∧
        (∀ why, s.refusal = some why → why ≠ .failed → Corrupt v consumed) ∧
        (Corrupt v consumed → s.refusal.isSome) ∧
        s.received ≤ drbdHeaderSize v + 24 ∧ ∀ i, drbdHeaderSize v + 24 ≤ i → s.rbuf i = rbuf i) ∧
    ∀ (s : Asender σ) (r : Round), s.ended = none → (r.recv = .eintr ∨ ∃ recent, r.recv = .eagain recent) →
      Untouched s (s.round v fn r) ∧ ∀ e, (s.round v fn r).ended = some e →
        e = .stopped ∨ e = .sendPingFailed ∨ e = .finishPeerReqsFailed ∨
          (e = .pingAckLate ∧ r.recv = .eagain false ∧
            (s.pingTimeoutActive = true ∨ s.sendPing = true ∨ r.pingRequest = true)) := by
  refine ⟨fun rbuf world stream rounds s h => ?_, fun s r => interrupted_round⟩
  obtain ⟨⟨consumed, hstream, hfollows⟩, hframe⟩ :=
    run_preserves (I := Reassembled v fn world stream rbuf) step_reassembled
      (start_reassembled v fn rbuf world stream) h
  obtain ⟨hwhole, hle⟩ := hfollows.whole
  refine ⟨consumed, hstream, hwhole, fun why hwhy hne => ?_, fun hcorrupt => ?_, hle, hframe⟩
  · exact corrupt_of_refused (by rw [hwhole]; exact hwhy) hne
  · have hsome := hcorrupt.refused fn world
    rwa [hwhole] at hsome

/-- Functions that only note which packets they are called for. -/
def noted : AsenderFn (List AsenderPacket) := fun cmd _ _ w => (false, w ++ [cmd])

/-- A round in which nothing but the socket matters. -/
def calm (recv : RecvShort) : Round := ⟨true, false, true, true, false, recv⟩

/-- The header of a ping in version 100, with any last byte of padding. -/
def pingHeader (pad : UInt8) : List UInt8 :=
  [0x86, 0x20, 0xec, 0x20, 0, 0, 0, 0x13, 0, 0, 0, 0, 0, 0, 0, pad]

/-- A ping in three reads, with a timeout between them. -/
theorem asender_reassembles_ping :
    (run (Asender.step 100 noted) (.start 100 (fun _ => 0) [] (pingHeader 0))
      [calm (.bytes 4), calm (.eagain true), calm (.bytes 0), calm .eintr, calm (.bytes 20)]).map (·.world) =
        some [.ping] ∧
    ∀ s, run (Asender.step 100 noted) (.start 100 (fun _ => 0) [] (pingHeader 0))
      [calm (.bytes 4), calm (.eagain true), calm (.bytes 0), calm .eintr, calm (.bytes 20)] = some s →
      ∃ consumed, pingHeader 0 = consumed ++ s.stream ∧
        wholePackets 100 noted [] consumed = (s.refusal, s.world) ∧
        (∀ why, s.refusal = some why → why ≠ .failed → Corrupt 100 consumed) ∧
        (Corrupt 100 consumed → s.refusal.isSome) ∧
        s.received ≤ drbdHeaderSize 100 + 24 ∧ ∀ i, drbdHeaderSize 100 + 24 ≤ i → s.rbuf i = 0 :=
  ⟨by decide, fun s h => (asender_reassembles 100 noted).1 (fun _ => 0) [] (pingHeader 0) _ s h⟩

/-- A ping with padding is refused, though its magic number, command and length are right. And a ping of our own that
is not answered in time ends the loop before the ping that was to come. -/
theorem asender_refuses_more :
    ((run (Asender.step 100 noted) (.start 100 (fun _ => 0) [] (pingHeader 1)) [calm (.bytes 15)]).map (·.ended) =
        some (some (.refused .badHeader)) ∧
      field (pingHeader 1) 0 4 = DRBD_MAGIC_100 ∧ AsenderPacket.ofWire (field (pingHeader 1) 6 2) = some .ping ∧
      field (pingHeader 1) 8 4 = asenderTbl .ping) ∧
    (run (Asender.step 100 noted) (.start 100 (fun _ => 0) [] (pingHeader 0)) [calm (.bytes 4), calm (.bytes 20)]).map
        (fun s => (s.ended, s.world)) = some (none, [.ping]) ∧
    (run (Asender.step 100 noted) (.start 100 (fun _ => 0) [] (pingHeader 0))
        [calm (.bytes 4), calm (.eagain false), calm (.eagain false)]).map
        (fun s => (s.ended, s.world)) = some (some .pingAckLate, []) := by
  decide

end Drbd.Framing
