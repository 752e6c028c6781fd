import Mathlib.Logic.Relation
import Drbd.Framing.Lemmas.Reads
import Drbd.Lib.System

/-!
# Packet boundaries

A packet is its header and as many bytes as the header announces. Which packets does `drbdd` leave the
stream behind at their end?
-/

namespace Drbd.Framing

open Lib Lib.Reader Xfer

variable {agreedProVersion : Nat} {s s' rest : List UInt8} {node : Node} {pi : PacketInfo} {p : List UInt8}

/-- One whole packet, as its header announces it. -/
def OnePacket (agreedProVersion : Nat) (s s' : List UInt8) : Prop :=
  ∃ pi s₁, drbdRecvHeader agreedProVersion s = some (pi, s₁) ∧ Took s₁ s' pi.size

/-- What is read for a packet is this packet; a bitmap may take several. -/
def WholePackets (agreedProVersion : Nat) (cmd : DrbdPacket) (s s' : List UInt8) : Prop :=
  if cmd = .bitmap ∨ cmd = .compressedBitmap then
    Relation.TransGen (OnePacket agreedProVersion) s s'
  else OnePacket agreedProVersion s s'

/-- The fixed part of a packet: what the table says, and what `receive_SyncParam` reads on its own. -/
def fixedSize (agreedProVersion : Nat) (node : Node) (cmd : DrbdPacket) (vnr : Nat) : Nat :=
  if (cmd = .syncParam ∨ cmd = .syncParam89) ∧ (node.peerDevice vnr).isSome then
    syncParamHeaderSize agreedProVersion
  else (drbdCmdHandler cmd).pktSize

/-- The size in the header is one that the handler can meet; `p` is the packet behind its header. -/
structure Announces (agreedProVersion : Nat) (node : Node) (cmd : DrbdPacket) (pi : PacketInfo)
    (p : List UInt8) : Prop where
  fixed : fixedSize agreedProVersion node cmd pi.vnr ≤ pi.size
  protocol : cmd = .protocol ∨ cmd = .protocolUpdate → agreedProVersion < 87 → pi.size ≤ 24
  reply : cmd = .dataReply → ∀ device bio, node.peerDevice pi.vnr = some device →
    device.findRequest ((p.drop 8).take 8) (field p 0 8) = some bio →
    pi.size ≤ 24 + node.digestSize + bio.segments.sum

/-! ## One handler at a time -/

/-- The size left for a handler. -/
def leftSize (size shs : Nat) : Nat := unsigned 32 (size - shs)

theorem leftSize_cases {size shs : Nat} (hsize : size < 2 ^ 32) (hshs : shs ≤ 48) :
    leftSize size shs < 2 ^ 32 ∧
      ((shs ≤ size ∧ leftSize size shs = size - shs) ∨ (size < shs ∧ 2 ^ 31 ≤ leftSize size shs)) := by
  unfold leftSize unsigned
  omega

/-- All that the header announces behind the fixed part was read. -/
def ReadsAll (size shs : Nat) (s rest : List UInt8) : Prop := shs ≤ size ∧ Took s rest (size - shs)

variable {n size shs vnr : Nat} {cmd : DrbdPacket}

theorem ReadsAll.of_left (hsize : size < 2 ^ 32) (hshs : shs ≤ 48) (hlt : leftSize size shs < 2 ^ 31)
    (h : Took s rest (leftSize size shs)) : ReadsAll size shs s rest := by
  rcases (leftSize_cases hsize hshs).2 with ⟨hle, heq⟩ | ⟨_, hge⟩
  · exact ⟨hle, heq ▸ h⟩
  · omega

theorem drain_readsAll (hsize : size < 2 ^ 32) (hshs : shs ≤ 48)
    (h : drbdDrainBlock (signed 32 (leftSize size shs)) s = some ((), rest)) : ReadsAll size shs s rest := by
  obtain ⟨hlt, htook⟩ := drbdDrainBlock_some (leftSize_cases hsize hshs).1 h
  exact .of_left hsize hshs hlt htook

theorem ignore_readsAll (hsize : size < 2 ^ 32) (hshs : shs ≤ 48)
    (h : ignoreRemainingPacket (signed 32 (leftSize size shs)) s = some ((), rest)) :
    ReadsAll size shs s rest := by
  obtain ⟨hlt, htook⟩ := ignoreRemainingPacket_some (leftSize_cases hsize hshs).1 h
  exact .of_left hsize hshs hlt htook

theorem readInBlock_readsAll {device : Device} (hsize : size < 2 ^ 32) (hshs : shs ≤ 48)
    (h : readInBlock node device (leftSize size shs) p s = some ((), rest)) : ReadsAll size shs s rest := by
  obtain ⟨hlt, htook⟩ := readInBlock_some (leftSize_cases hsize hshs).1 h
  exact .of_left hsize hshs hlt htook

theorem recvAll_readsAll (hsize : size < 2 ^ 32) (hshs : shs ≤ 48)
    (h : (discard (drbdRecvAll (leftSize size shs)) : Recv Unit) s = some ((), rest)) :
    ReadsAll size shs s rest := by
  obtain ⟨hlt, htook⟩ := discard_some h
  exact .of_left hsize hshs hlt htook

theorem receiveData_some (hsize : size < 2 ^ 32) (hshs : shs ≤ 48)
    (h : receiveData node cmd ⟨n, leftSize size shs, vnr⟩ p s = some ((), rest)) :
    ReadsAll size shs s rest ∨ (cmd = .trim ∧ s = rest) := by
  unfold receiveData at h
  dsimp only at h
  rcases hdevice : node.peerDevice vnr with _ | device <;> rw [hdevice] at h
  · cases h
  have h := after_some h
  split at h
  · exact .inl (drain_readsAll hsize hshs h)
  split at h
  · rename_i htrim
    unfold readInTrim at h
    split at h
    · cases h
    split at h
    · cases h
    · exact .inr ⟨htrim, (pure_eq_some h).2⟩
  · exact .inl (readInBlock_readsAll hsize hshs h)

theorem receiveDataReply_some (hsize : size < 2 ^ 32) (hshs : shs ≤ 48)
    (h : receiveDataReply node ⟨n, leftSize size shs, vnr⟩ p s = some ((), rest)) :
    ∃ device bio, node.peerDevice vnr = some device ∧
      device.findRequest ((p.drop 8).take 8) (field p 0 8) = some bio ∧ shs + node.digestSize ≤ size ∧
      Took s rest (node.digestSize + min (size - shs - node.digestSize) bio.segments.sum) := by
  unfold receiveDataReply at h
  dsimp only at h
  rcases hdevice : node.peerDevice vnr with _ | device <;> rw [hdevice] at h
  · cases h
  dsimp only at h
  rcases hbio : device.findRequest ((p.drop 8).take 8) (field p 0 8) with _ | bio <;> rw [hbio] at h
  · cases h
  obtain ⟨hle, hlt, htook⟩ := recvDlessRead_some (leftSize_cases hsize hshs).1 (after_some h)
  have hdigest := node.digestSize_le
  rcases (leftSize_cases hsize hshs).2 with ⟨hle', heq⟩ | ⟨_, hge⟩
  · rw [heq] at hle htook
    exact ⟨device, bio, rfl, hbio, by omega, htook⟩
  · unfold leftSize unsigned at *
    omega

theorem receiveRSDataReply_some (hsize : size < 2 ^ 32) (hshs : shs ≤ 48)
    (h : receiveRSDataReply node ⟨n, leftSize size shs, vnr⟩ p s = some ((), rest)) :
    ReadsAll size shs s rest := by
  unfold receiveRSDataReply at h
  dsimp only at h
  rcases hdevice : node.peerDevice vnr with _ | device <;> rw [hdevice] at h
  · cases h
  have h := after_some h
  split at h
  · exact readInBlock_readsAll hsize hshs h
  · exact drain_readsAll hsize hshs h

theorem receiveDataRequest_some (hsize : size < 2 ^ 32) (hshs : shs ≤ 48)
    (h : receiveDataRequest node cmd ⟨n, leftSize size shs, vnr⟩ p s = some ((), rest)) :
    ReadsAll size shs s rest ∨ (cmd ≠ .ovReply ∧ cmd ≠ .csumRsRequest ∧ s = rest) := by
  unfold receiveDataRequest at h
  dsimp only at h
  rcases hdevice : node.peerDevice vnr with _ | device <;> rw [hdevice] at h
  · cases h
  dsimp only at h
  split at h
  · cases h
  split at h
  · cases h
  have h := after_some h
  split at h
  · exact .inl (drain_readsAll hsize hshs h)
  split at h
  · exact .inl (recvAll_readsAll hsize hshs h)
  · rename_i hcmd
    obtain ⟨hov, hcsum⟩ := not_or.1 hcmd
    exact .inr ⟨hov, hcsum, (pure_eq_some h).2⟩

theorem receiveProtocol_some (hsize : size < 2 ^ 32) (hshs : shs ≤ 48)
    (h : receiveProtocol agreedProVersion node ⟨n, leftSize size shs, vnr⟩ s = some ((), rest)) :
    (87 ≤ agreedProVersion ∧ ReadsAll size shs s rest) ∨ (agreedProVersion < 87 ∧ s = rest) := by
  unfold receiveProtocol at h
  split at h
  · rename_i hnew
    split at h
    · cases h
    · exact .inl ⟨hnew, recvAll_readsAll hsize hshs (after_some h)⟩
  · exact .inr ⟨by omega, finish_some h⟩

theorem receiveConfig_some (hsize : size < 2 ^ 32) (hshs : shs ≤ 48)
    (h : receiveConfig node ⟨n, leftSize size shs, vnr⟩ s = some ((), rest)) :
    ReadsAll size shs s rest ∨ s = rest := by
  unfold receiveConfig at h
  dsimp only at h
  rcases hdevice : node.peerDevice vnr with _ | device <;> rw [hdevice] at h
  · exact .inl (ignore_readsAll hsize hshs h)
  · exact .inr (finish_some h)

theorem receiveForDevice_some (h : receiveForDevice node pi s = some ((), rest)) : s = rest := by
  unfold receiveForDevice at h
  rcases hdevice : node.peerDevice pi.vnr with _ | device <;> rw [hdevice] at h
  · cases h
  · exact finish_some h

/-- All of the packet, or its fixed part when there is nothing else to be read in this version. -/
theorem receiveSyncParam_some (hsize : size < 2 ^ 32)
    (h : receiveSyncParam agreedProVersion node ⟨n, leftSize size 0, vnr⟩ s = some ((), rest)) :
    (Took s rest size ∧ (node.peerDevice vnr = none ∨ syncParamHeaderSize agreedProVersion ≤ size)) ∨
      ((node.peerDevice vnr).isSome ∧ size ≤ syncParamHeaderSize agreedProVersion ∧
        Took s rest (syncParamHeaderSize agreedProVersion)) := by
  unfold receiveSyncParam at h
  dsimp only at h
  rcases hdevice : node.peerDevice vnr with _ | device <;> rw [hdevice] at h
  · exact .inl ⟨(ignore_readsAll hsize (Nat.zero_le _) h).2, .inl rfl⟩
  have hleft : leftSize size 0 = size := by
    unfold leftSize unsigned
    omega
  rw [hleft] at h
  dsimp only at h
  split at h
  · cases h
  rename_i hmax
  obtain ⟨xs, s₁, hrecv, hrest⟩ := bind_eq_some h
  have htook := (drbdRecvAll_some hrecv).2.1
  split at hrest
  · rename_i h88
    have hheader : syncParamHeaderSize agreedProVersion = 4 := by rw [h88]; rfl
    unfold recvVerifyAlg at hrest
    split at hrest
    · cases hrest
    rename_i hdata
    have hboth := htook.trans (discard_some (after_some hrest)).2
    rw [hheader] at hboth ⊢
    have heq : unsigned 32 (size - 4) = size - 4 ∧ 4 ≤ size := by
      simp only [SHARED_SECRET_MAX] at hdata
      unfold unsigned at hdata ⊢
      omega
    rw [heq.1, Nat.add_sub_cancel' heq.2] at hboth
    exact .inl ⟨hboth, .inr heq.2⟩
  · rename_i h88
    refine .inr ⟨rfl, ?_, finish_some hrest ▸ htook⟩
    unfold syncParamMaxSize at hmax
    rw [if_neg h88] at hmax
    omega

/-- A bitmap's packets are each read whole. -/
theorem receiveBitmapLoop_some {fuel : Nat} {t : Transfer}
    (h : receiveBitmapLoop agreedProVersion node fuel t pi s = some ((), rest)) :
    ∃ s', Took s s' pi.size ∧ Relation.ReflTransGen (OnePacket agreedProVersion) s' rest := by
  induction fuel generalizing t pi s with
  | zero => cases h
  | succ fuel ih =>
      unfold receiveBitmapLoop at h
      rcases hcmd : bitmapCmd pi.cmd with _ | cmd <;> rw [hcmd] at h
      · cases h
      obtain ⟨payload, s₁, hrecv, hrest⟩ := bind_eq_some h
      have htook : Took s s₁ pi.size := by
        unfold recvBitmapPayload at hrecv
        cases cmd with
        | bitmap =>
            dsimp only at hrecv
            split at hrecv
            · cases hrecv
            · exact (drbdRecvAll_some hrecv).2.1
        | compressedBitmap =>
            dsimp only at hrecv
            split at hrecv
            · cases hrecv
            split at hrecv
            · cases hrecv
            · exact (drbdRecvAll_some hrecv).2.1
      refine ⟨s₁, htook, ?_⟩
      rcases hstep : t.step agreedProVersion ⟨cmd, payload⟩ with _ | t' <;> rw [hstep] at hrest
      · cases hrest
      dsimp only at hrest
      split at hrest
      · obtain ⟨pi', s₂, hheader, hrest⟩ := bind_eq_some hrest
        obtain ⟨s₃, htook', hmore⟩ := ih hrest
        exact .head ⟨pi', s₂, hheader, htook'⟩ hmore
      · rw [finish_some hrest]

/-! ## The table -/

/-- A packet of which all or nothing is read behind its fixed part. -/
theorem reads_all_or_none (hfixed : fixedSize agreedProVersion node cmd vnr = shs)
    (hp : ¬ (cmd = .protocol ∨ cmd = .protocolUpdate)) (hr : cmd ≠ .dataReply)
    (h : ReadsAll size shs s rest ∨ (size ≤ shs ∧ s = rest)) :
    ∃ k, Took s rest k ∧ (shs + k = size ↔ Announces agreedProVersion node cmd ⟨n, size, vnr⟩ p) := by
  have hiff : Announces agreedProVersion node cmd ⟨n, size, vnr⟩ p ↔ shs ≤ size :=
    ⟨fun h => hfixed ▸ h.fixed, fun h => ⟨hfixed ▸ h, fun h => absurd h hp, fun h => absurd h hr⟩⟩
  rw [hiff]
  rcases h with ⟨hle, htook⟩ | ⟨hle, rfl⟩
  · exact ⟨_, htook, by omega⟩
  · exact ⟨0, .refl s, by omega⟩

/-- Before version 87 the name of the integrity algorithm is not read, whatever is announced. -/
theorem reads_protocol (hfixed : fixedSize agreedProVersion node cmd vnr = 24)
    (hp : cmd = .protocol ∨ cmd = .protocolUpdate) (hr : cmd ≠ .dataReply)
    (h : (87 ≤ agreedProVersion ∧ ReadsAll size 24 s rest) ∨ (agreedProVersion < 87 ∧ s = rest)) :
    ∃ k, Took s rest k ∧ (24 + k = size ↔ Announces agreedProVersion node cmd ⟨n, size, vnr⟩ p) := by
  rcases h with ⟨hnew, hle, htook⟩ | ⟨hold, rfl⟩
  · exact ⟨_, htook, fun _ => ⟨hfixed ▸ hle, fun _ h => by omega, fun h => absurd h hr⟩, fun _ => by omega⟩
  · refine ⟨0, .refl s, fun h => ⟨hfixed ▸ le_of_eq h, fun _ _ => le_of_eq h.symm, fun h => absurd h hr⟩,
      fun h => ?_⟩
    have hfixed' := hfixed ▸ h.fixed
    have hmost := h.protocol hp hold
    dsimp only at hfixed' hmost
    omega

/-- A reply is read as far as the request it answers is long. -/
theorem reads_reply (h : ∃ device bio, node.peerDevice vnr = some device ∧
      device.findRequest ((p.drop 8).take 8) (field p 0 8) = some bio ∧ 24 + node.digestSize ≤ size ∧
      Took s rest (node.digestSize + min (size - 24 - node.digestSize) bio.segments.sum)) :
    ∃ k, Took s rest k ∧
      (24 + k = size ↔ Announces agreedProVersion node .dataReply ⟨n, size, vnr⟩ p) := by
  obtain ⟨device, bio, hdevice, hbio, hle, htook⟩ := h
  refine ⟨_, htook, fun heq => ⟨?_, fun h => by simp at h, fun _ device' bio' hdevice' hbio' => ?_⟩, fun h => ?_⟩
  · show (24 : Nat) ≤ size
    omega
  · cases hdevice.symm.trans hdevice'
    cases hbio.symm.trans hbio'
    show size ≤ _
    omega
  · have hmost := h.reply rfl device bio hdevice hbio
    dsimp only at hmost
    omega

theorem reads_syncParam (hcmd : cmd = .syncParam ∨ cmd = .syncParam89)
    (h : (Took s rest size ∧ (node.peerDevice vnr = none ∨ syncParamHeaderSize agreedProVersion ≤ size)) ∨
      ((node.peerDevice vnr).isSome ∧ size ≤ syncParamHeaderSize agreedProVersion ∧
        Took s rest (syncParamHeaderSize agreedProVersion))) :
    ∃ k, Took s rest k ∧ (0 + k = size ↔ Announces agreedProVersion node cmd ⟨n, size, vnr⟩ p) := by
  have hiff : Announces agreedProVersion node cmd ⟨n, size, vnr⟩ p
      ↔ fixedSize agreedProVersion node cmd vnr ≤ size := by
    refine ⟨fun h => h.fixed, fun h => ⟨h, fun hp => ?_, fun hr => ?_⟩⟩
    · rcases hcmd with rfl | rfl <;> simp at hp
    · rcases hcmd with rfl | rfl <;> simp at hr
  simp only [hiff, Nat.zero_add]
  unfold fixedSize
  rcases h with ⟨htook, hnone | hle⟩ | ⟨hsome, hle, htook⟩
  · refine ⟨_, htook, fun _ => ?_, fun _ => rfl⟩
    rw [hnone, if_neg (by simp)]
    rcases hcmd with rfl | rfl <;> exact Nat.zero_le _
  · refine ⟨_, htook, fun _ => ?_, fun _ => rfl⟩
    split
    · exact hle
    · rcases hcmd with rfl | rfl <;> exact Nat.zero_le _
  · refine ⟨_, htook, ?_⟩
    rw [if_pos ⟨hcmd, hsome⟩]
    omega

/-- Outside the bitmap exchange the packet is read to its end if and only if its header announces what
the handler reads. -/
theorem handler_reads (hsize : size < 2 ^ 32)
    (hpayload : ¬ ((drbdCmdHandler cmd).pktSize < size ∧ (drbdCmdHandler cmd).expectPayload = false))
    (hbitmap : ¬ (cmd = .bitmap ∨ cmd = .compressedBitmap))
    (h : handler agreedProVersion node cmd ⟨n, leftSize size (drbdCmdHandler cmd).pktSize, vnr⟩ p s
      = some ((), rest)) :
    ∃ k, Took s rest k ∧ ((drbdCmdHandler cmd).pktSize + k = size ↔
      Announces agreedProVersion node cmd ⟨n, size, vnr⟩ p) := by
  have hnone : (drbdCmdHandler cmd).expectPayload = false → size ≤ (drbdCmdHandler cmd).pktSize :=
    fun h => Nat.le_of_not_lt fun hlt => hpayload ⟨hlt, h⟩
  cases cmd with
  | bitmap => exact absurd (.inl rfl) hbitmap
  | compressedBitmap => exact absurd (.inr rfl) hbitmap
  | data =>
      refine reads_all_or_none rfl (by simp) (by simp) (.inl ?_)
      rcases receiveData_some hsize (by decide) h with h | ⟨h, _⟩
      · exact h
      · cases h
  | trim =>
      refine reads_all_or_none rfl (by simp) (by simp) ?_
      exact (receiveData_some hsize (by decide) h).imp_right fun h => ⟨hnone rfl, h.2⟩
  | dataReply => exact reads_reply (receiveDataReply_some hsize (by decide) h)
  | rsDataReply =>
      exact reads_all_or_none rfl (by simp) (by simp) (.inl (receiveRSDataReply_some hsize (by decide) h))
  | dataRequest | rsDataRequest | ovRequest =>
      refine reads_all_or_none rfl (by simp) (by simp) ?_
      exact (receiveDataRequest_some hsize (by decide) h).imp_right fun h => ⟨hnone rfl, h.2.2⟩
  | ovReply | csumRsRequest =>
      refine reads_all_or_none rfl (by simp) (by simp) (.inl ?_)
      rcases receiveDataRequest_some hsize (by decide) h with h | ⟨hov, hcsum, _⟩
      · exact h
      · simp at hov hcsum
  | syncParam => exact reads_syncParam (.inl rfl) (receiveSyncParam_some hsize h)
  | syncParam89 => exact reads_syncParam (.inr rfl) (receiveSyncParam_some hsize h)
  | protocol => exact reads_protocol rfl (.inl rfl) (by simp) (receiveProtocol_some hsize (by decide) h)
  | protocolUpdate => exact reads_protocol rfl (.inr rfl) (by simp) (receiveProtocol_some hsize (by decide) h)
  | uuids | sizes | state | snapStart | snapEnd =>
      refine reads_all_or_none rfl (by simp) (by simp) ?_
      exact (receiveConfig_some hsize (by decide) h).imp_right fun h => ⟨hnone rfl, h⟩
  | stateChgReq | syncUuid | outOfSync =>
      exact reads_all_or_none rfl (by simp) (by simp) (.inr ⟨hnone rfl, receiveForDevice_some h⟩)
  | barrier | unplugRemote | connStChgReq =>
      exact reads_all_or_none rfl (by simp) (by simp) (.inr ⟨hnone rfl, finish_some h⟩)
  | delayProbe =>
      exact reads_all_or_none rfl (by simp) (by simp) (.inl (ignore_readsAll hsize (by decide) h))

/-! ## Whole packets -/

theorem drbdRecvHeader_some (h : drbdRecvHeader agreedProVersion s = some (pi, s')) :
    pi.size < 2 ^ 32 := by
  obtain ⟨header, s₁, hrecv, hrest⟩ := bind_eq_some h
  rcases hdecode : decodeHeader agreedProVersion header with _ | pi' <;> rw [hdecode] at hrest
  · cases hrest
  cases hrest
  have h2 : ∀ off, field header off 2 < 2 ^ 32 := fun off => lt_trans (beNat_lt _ off 2) (by decide)
  have h4 : ∀ off, field header off 4 < 2 ^ 32 := fun off => lt_of_lt_of_eq (beNat_lt _ off 4) (by decide)
  unfold decodeHeader at hdecode
  dsimp only at hdecode
  split at hdecode
  · split at hdecode
    · cases hdecode
    · cases hdecode
      exact h4 8
  split at hdecode
  · cases hdecode
    exact h4 4
  split at hdecode
  · cases hdecode
    exact h2 6
  · cases hdecode

/-- A packet that was handled without an error, taken apart. -/
theorem drbddPacket_some (h : drbddPacket agreedProVersion node s = some ((), rest)) :
    ∃ pi s₁ cmd s₂, drbdRecvHeader agreedProVersion s = some (pi, s₁) ∧ DrbdPacket.ofWire pi.cmd = some cmd ∧
      ¬ ((drbdCmdHandler cmd).pktSize < pi.size ∧ (drbdCmdHandler cmd).expectPayload = false) ∧
      Took s₁ s₂ (drbdCmdHandler cmd).pktSize ∧
      handler agreedProVersion node cmd ⟨pi.cmd, leftSize pi.size (drbdCmdHandler cmd).pktSize, pi.vnr⟩
        (s₁.take (drbdCmdHandler cmd).pktSize) s₂ = some ((), rest) := by
  obtain ⟨pi, s₁, hheader, h⟩ := bind_eq_some h
  rcases hcmd : DrbdPacket.ofWire pi.cmd with _ | cmd <;> rw [hcmd] at h
  · cases h
  dsimp only at h
  split at h
  · cases h
  rename_i hpayload
  obtain ⟨p, s₂, hrecv, h⟩ := bind_eq_some h
  obtain ⟨_, htook, rfl⟩ := drbdRecvAll_some hrecv
  exact ⟨pi, s₁, cmd, s₂, hheader, hcmd, hpayload, htook, h⟩

/-- The header at the start of the stream announces what the handler of its packet reads. -/
def AnnouncedRight (agreedProVersion : Nat) (s : List UInt8) (node : Node) : Prop :=
  ∀ pi s₁ cmd, drbdRecvHeader agreedProVersion s = some (pi, s₁) → DrbdPacket.ofWire pi.cmd = some cmd →
    Announces agreedProVersion node cmd pi (s₁.take (drbdCmdHandler cmd).pktSize)

/-- A packet is left behind at its end if and only if its size was announced right. -/
theorem drbddPacket_whole (h : drbddPacket agreedProVersion node s = some ((), rest)) :
    (∀ pi s₁ cmd, drbdRecvHeader agreedProVersion s = some (pi, s₁) → DrbdPacket.ofWire pi.cmd = some cmd →
      WholePackets agreedProVersion cmd s rest) ↔ AnnouncedRight agreedProVersion s node := by
  obtain ⟨pi, s₁, cmd, s₂, hheader, hcmd, hpayload, htook, h⟩ := drbddPacket_some h
  have hsame : ∀ {pi' s₁'}, drbdRecvHeader agreedProVersion s = some (pi', s₁') → pi' = pi ∧ s₁' = s₁ := by
    intro pi' s₁' h'
    cases hheader.symm.trans h'
    exact ⟨rfl, rfl⟩
  have hleft : (∀ pi s₁ cmd, drbdRecvHeader agreedProVersion s = some (pi, s₁) →
      DrbdPacket.ofWire pi.cmd = some cmd → WholePackets agreedProVersion cmd s rest)
      ↔ WholePackets agreedProVersion cmd s rest := by
    refine ⟨fun hall => hall pi s₁ cmd hheader hcmd, fun hone pi' s₁' cmd' hheader' hcmd' => ?_⟩
    obtain ⟨rfl, rfl⟩ := hsame hheader'
    cases hcmd.symm.trans hcmd'
    exact hone
  have hright : AnnouncedRight agreedProVersion s node
      ↔ Announces agreedProVersion node cmd pi (s₁.take (drbdCmdHandler cmd).pktSize) := by
    refine ⟨fun hall => hall pi s₁ cmd hheader hcmd, fun hone pi' s₁' cmd' hheader' hcmd' => ?_⟩
    obtain ⟨rfl, rfl⟩ := hsame hheader'
    cases hcmd.symm.trans hcmd'
    exact hone
  rw [hleft, hright]
  unfold WholePackets
  split
  · -- the loop of `receive_bitmap` goes from packet to packet
    rename_i hbitmap
    have hzero : (drbdCmdHandler cmd).pktSize = 0 ∧ Announces agreedProVersion node cmd pi
        (s₁.take (drbdCmdHandler cmd).pktSize) := by
      rcases hbitmap with rfl | rfl
      · exact ⟨rfl, Nat.zero_le _, fun h => by simp at h, fun h => by simp at h⟩
      · exact ⟨rfl, Nat.zero_le _, fun h => by simp at h, fun h => by simp at h⟩
    refine ⟨fun _ => hzero.2, fun _ => ?_⟩
    have hsize := drbdRecvHeader_some hheader
    have hpi : (⟨pi.cmd, leftSize pi.size 0, pi.vnr⟩ : PacketInfo) = pi := by
      have : leftSize pi.size 0 = pi.size := by
        unfold leftSize unsigned
        omega
      rw [this]
    rw [hzero.1] at htook h
    rw [hpi] at h
    have hloop : receiveBitmap agreedProVersion node pi s₂ = some ((), rest) := by
      rcases hbitmap with rfl | rfl <;> exact h
    unfold receiveBitmap at hloop
    rcases hdevice : node.peerDevice pi.vnr with _ | device <;> rw [hdevice] at hloop
    · cases hloop
    obtain ⟨s₃, hfirst, hmore⟩ := receiveBitmapLoop_some hloop
    have hstart : Took s₁ s₃ pi.size := (Nat.zero_add pi.size) ▸ htook.trans hfirst
    exact .head' ⟨pi, s₁, hheader, hstart⟩ hmore
  · rename_i hbitmap
    obtain ⟨k, hk, hiff⟩ := handler_reads (drbdRecvHeader_some hheader) hpayload hbitmap h
    rw [← hiff, ← htook.iff_right hk]
    constructor
    · rintro ⟨pi', s₁', hheader', hwhole⟩
      obtain ⟨rfl, rfl⟩ := hsame hheader'
      exact hwhole
    · intro hwhole
      exact ⟨pi, s₁, hheader, hwhole⟩

theorem WholePackets.boundary {cmd : DrbdPacket} (h : WholePackets agreedProVersion cmd s rest) :
    Relation.ReflTransGen (OnePacket agreedProVersion) s rest := by
  unfold WholePackets at h
  split at h
  · exact h.to_reflTransGen
  · exact .single h

theorem drbdd_some (h : drbdd agreedProVersion s node = some rest) :
    drbddPacket agreedProVersion node s = some ((), rest) := by
  obtain ⟨⟨_, s'⟩, hpacket, rfl⟩ := Option.map_eq_some_iff.1 h
  exact hpacket

/-- Every packet that is handled without an error is left behind at its end exactly when its header
announces what the handler reads; as long as all do, every header is read at a packet boundary. -/
theorem packet_framing (agreedProVersion : Nat) :
    (∀ (node : Node) (s rest : List UInt8), drbddPacket agreedProVersion node s = some ((), rest) →
      ((∀ pi s₁ cmd, drbdRecvHeader agreedProVersion s = some (pi, s₁) →
        DrbdPacket.ofWire pi.cmd = some cmd → WholePackets agreedProVersion cmd s rest) ↔
        AnnouncedRight agreedProVersion s node)) ∧
    ∀ (nodes : List Node) (s rest : List UInt8),
      Meets (drbdd agreedProVersion) (AnnouncedRight agreedProVersion) s nodes →
      run (drbdd agreedProVersion) s nodes = some rest →
      Relation.ReflTransGen (OnePacket agreedProVersion) s rest := by
  refine ⟨fun node s rest h => drbddPacket_whole h, fun nodes s rest hmeets hrun => ?_⟩
  refine run_invariant (I := fun t => Relation.ReflTransGen (OnePacket agreedProVersion) s t)
    (fun hI hright hstep => ?_) .refl hmeets hrun
  have hpacket := drbdd_some hstep
  obtain ⟨pi, s₁, cmd, _, hheader, hcmd, _⟩ := drbddPacket_some hpacket
  exact hI.trans ((drbddPacket_whole hpacket).2 hright pi s₁ cmd hheader hcmd).boundary

def plainNode : Node := ⟨fun _ => none, 0, by decide, true⟩

/-- The header of a barrier in version 100, with any length below 256. -/
def barrierHeader (length : UInt8) : List UInt8 :=
  [0x86, 0x20, 0xec, 0x20, 0, 0, 0, 3, 0, 0, 0, length, 0, 0, 0, 0]

theorem drbdRecvHeader_barrier (length : UInt8) (s : List UInt8) :
    drbdRecvHeader 100 (barrierHeader length ++ s) = some (⟨3, length.toNat, 0⟩, s) := by
  simp [drbdRecvHeader, drbdRecvAll, drbdHeaderSize, Reader.take, barrierHeader, decodeHeader, field, beNat,
    DRBD_MAGIC_100, bind, StateT.bind]
  rfl

theorem announcedRight_barrier : AnnouncedRight 100 (barrierHeader 8 ++ List.replicate 8 0) plainNode := by
  intro pi s₁ cmd hheader hcmd
  rw [drbdRecvHeader_barrier] at hheader
  cases hheader
  cases hcmd
  exact ⟨by decide, fun h => by simp at h, fun h => by simp at h⟩

/-- A barrier as it is sent. -/
theorem packet_framing_barrier :
    drbddPacket 100 plainNode (barrierHeader 8 ++ List.replicate 8 0) = some ((), []) ∧
      OnePacket 100 (barrierHeader 8 ++ List.replicate 8 0) [] ∧
      Relation.ReflTransGen (OnePacket 100) (barrierHeader 8 ++ List.replicate 8 0) [] := by
  have hok : drbddPacket 100 plainNode (barrierHeader 8 ++ List.replicate 8 0) = some ((), []) := by decide
  refine ⟨hok, ?_, ?_⟩
  · exact ((packet_framing 100).1 plainNode _ _ hok).2 announcedRight_barrier _ _ .barrier
      (drbdRecvHeader_barrier 8 _) rfl
  · exact (packet_framing 100).2 [plainNode] _ _ ⟨announcedRight_barrier, fun _ _ => trivial⟩
      (by decide)

/-- A barrier that announces no bytes is accepted, and eight bytes of the next packet are taken for its
fixed part. -/
theorem packet_framing_short :
    drbddPacket 100 plainNode (barrierHeader 0 ++ barrierHeader 8 ++ List.replicate 8 0)
      = some ((), (barrierHeader 8).drop 8 ++ List.replicate 8 0) ∧
    ¬ OnePacket 100 (barrierHeader 0 ++ barrierHeader 8 ++ List.replicate 8 0)
      ((barrierHeader 8).drop 8 ++ List.replicate 8 0) := by
  refine ⟨by decide, ?_⟩
  rintro ⟨pi, s₁, hheader, htook⟩
  rw [List.append_assoc, drbdRecvHeader_barrier] at hheader
  cases hheader
  have hlen := htook.length
  revert hlen
  decide

end Drbd.Framing
