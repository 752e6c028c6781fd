import Drbd.Divergence.Lemmas.Own

/-!
# What each step preserves
-/

namespace Drbd.Divergence

open State Uuid

variable {protocol : WireProtocol} {h : UInt64} {n n' m : Node} {val : UInt64} {env : Env} {hard : Bool}
  {os ns : DrbdState} {c c' : Cluster} {i : Bool} {e : Event}

/-- A queued work will draw a new current UUID, or see that there is one. -/
def Pending (n : Node) : Prop :=
  ∃ w ∈ n.work, LostPeerData w.1 w.2 ∧ w.2.role = .primary ∧ .upToDate ≤ w.2.disk

structure NodeInv (protocol : WireProtocol) (h : UInt64) (n m : Node) : Prop where
  history : n.uuid.historyStart = h
  disk : n.state.disk = .upToDate
  conn : n.state.conn < .connected ∨
    (n.state.conn = .connected ∧ n.state.pdsk = .upToDate ∧ ¬ Pending n)
  bitmap : n.uuid.bitmap ≠ 0 → Own n m
  promoted : n.promoted → Own n m
  primary : protocol ≠ .s → n.state.role = .primary → n.state.conn < .connected → n.promoting = false →
    Own n m ∨ Pending n ∨ (n.newCurUuid ∧ n.state.isSusp)
  wrote : protocol ≠ .s → n.wrote → Own n m ∨ (Pending n ∧ ¬ n.state.isSusp)

/-- Both nodes keep the history slot `h` they began with. -/
def Inv (h : UInt64) (c : Cluster) : Prop := ∀ i, NodeInv c.protocol h (c.node i) (c.node !i)

/-- A random number drawn in a step is a new one. -/
def DrawsFresh (c : Cluster) : Event → Prop
  | .afterStateCh _ val | .promoted _ val | .resumeIo _ val | .fenced _ val => Fresh c val
  | _ => True

instance (c : Cluster) : (e : Event) → Decidable (DrawsFresh c e)
  | .afterStateCh _ val | .promoted _ val | .resumeIo _ val | .fenced _ val =>
      inferInstanceAs (Decidable (Fresh c val))
  | .lose .. | .promote .. | .demote .. | .write _ | .connect .. => inferInstanceAs (Decidable True)

/-! ## One node changes -/

theorem NodeInv.peer_congr (hi : NodeInv protocol h m n) (hown : Own m n → Own m n') :
    NodeInv protocol h m n' where
  history := hi.history
  disk := hi.disk
  conn := hi.conn
  bitmap hb := hown (hi.bitmap hb)
  promoted hp := hown (hi.promoted hp)
  primary h1 h2 h3 h4 := (hi.primary h1 h2 h3 h4).imp_left hown
  wrote h1 h2 := (hi.wrote h1 h2).imp_left hown

theorem Cluster.set_node (c : Cluster) (n : Node) : (c.set i n).node i = n := Function.update_self ..

theorem Cluster.set_other (c : Cluster) (n : Node) : (c.set i n).node (!i) = c.node !i :=
  Function.update_of_ne (by cases i <;> decide) ..

theorem Inv.set (hi : Inv h c) (hn : NodeInv c.protocol h n' (c.node !i))
    (hown : Own (c.node !i) (c.node i) → Own (c.node !i) n') : Inv h (c.set i n') := by
  intro j
  by_cases hj : j = i
  · subst hj
    rw [c.set_node, c.set_other]
    exact hn
  · have hj' : j = !i := by cases i <;> cases j <;> simp_all
    subst hj'
    have hm := hi (!i)
    rw [Bool.not_not] at hm ⊢
    rw [c.set_other, c.set_node]
    exact hm.peer_congr hown

/-- The node's UUIDs are as before. -/
theorem Inv.set_same (hi : Inv h c) (hs : SameUuids (c.node i) n')
    (hn : NodeInv c.protocol h n' (c.node !i)) : Inv h (c.set i n') :=
  hi.set hn fun hown => hown.peer_congr hs

/-- The node has drawn a new current UUID. -/
theorem Inv.set_drawn (hi : Inv h c) (hf : Fresh c val) (hd : Drawn val (c.node i) n')
    (hn : NodeInv c.protocol h n' (c.node !i)) : Inv h (c.set i n') :=
  hi.set hn fun hown => hown.peer_drawn hd hf

/-- With a generation of its own, little is left to show about a node. -/
theorem NodeInv.of_own (hown : Own n m) (history : n.uuid.historyStart = h)
    (disk : n.state.disk = .upToDate)
    (conn : n.state.conn < .connected ∨
      (n.state.conn = .connected ∧ n.state.pdsk = .upToDate ∧ ¬ Pending n)) :
    NodeInv protocol h n m where
  history := history
  disk := disk
  conn := conn
  bitmap _ := hown
  promoted _ := hown
  primary _ _ _ _ := .inl hown
  wrote _ _ := .inl hown

/-- The node changes, but not its UUIDs. -/
theorem NodeInv.congr (hi : NodeInv protocol h n m) (hs : SameUuids n n')
    (disk : n'.state.disk = .upToDate)
    (conn : n'.state.conn < .connected ∨
      (n'.state.conn = .connected ∧ n'.state.pdsk = .upToDate ∧ ¬ Pending n'))
    (promoted : n'.promoted → Own n m)
    (primary : protocol ≠ .s → n'.state.role = .primary → n'.state.conn < .connected →
      n'.promoting = false → Own n m ∨ Pending n' ∨ (n'.newCurUuid ∧ n'.state.isSusp))
    (wrote : protocol ≠ .s → n'.wrote → Own n m ∨ (Pending n' ∧ ¬ n'.state.isSusp)) :
    NodeInv protocol h n' m := by
  refine ⟨hs.historyStart.trans hi.history, disk, conn, fun hb => ?_, fun hp => ?_, ?_, ?_⟩
  · exact (hi.bitmap (by rwa [← hs.bitmap])).congr hs
  · exact (promoted hp).congr hs
  · intro h1 h2 h3 h4
    exact (primary h1 h2 h3 h4).imp_left (·.congr hs)
  · intro h1 h2
    exact (wrote h1 h2).imp_left (·.congr hs)

/-! ## State changes -/

theorem Node.setState_cases (hset : n.setState env hard ns = some n') :
    (n' = n ∧ sanitizeState env n.state ns = n.state) ∨ n' = { n with
        state := sanitizeState env n.state ns
        work := n.work ++ [(n.state, sanitizeState env n.state ns)] } := by
  unfold Node.setState at hset
  dsimp only at hset
  split at hset
  · cases hset
  rename_i hok
  have hsan := (drbdSetState_ok (not_not.mp hok)).1
  split at hset
  · rename_i heq
    exact .inl ⟨(Option.some.inj hset).symm, hsan.symm.trans heq⟩
  · rw [hsan] at hset
    exact .inr (Option.some.inj hset).symm

/-- Without queued work, a node that has written has a generation of its own. -/
theorem NodeInv.own_of_wrote (hi : NodeInv protocol h n m) (hnot : ¬ Pending n) (hproto : protocol ≠ .s)
    (hw : n.wrote) : Own n m :=
  (hi.wrote hproto hw).resolve_right fun hpend => hnot hpend.1

theorem not_pending_nil (h : n.work = []) : ¬ Pending n := by
  rintro ⟨w, hw, -⟩
  rw [h] at hw
  cases hw

/-- The work of a change that leaves the peer's disk up to date draws nothing. -/
theorem not_pending_upToDate (hwork : n.work = [(os, ns)]) (hp : ns.pdsk = .upToDate) : ¬ Pending n := by
  rintro ⟨w, hw, ⟨-, hlost⟩, -⟩
  rw [hwork, List.mem_singleton] at hw
  subst hw
  rw [hp] at hlost
  exact absurd hlost (by decide)

theorem Inv.lose {conn : Conn} (hi : Inv h c) (hs : step c (.lose i env conn) = some c') : Inv h c' := by
  have hn := hi i
  simp only [step] at hs
  split at hs
  · rename_i hconn
    obtain ⟨n', hset, rfl⟩ := Option.map_eq_some_iff.mp hs
    obtain ⟨hc, hp, hnp⟩ := hn.conn.resolve_left (Nat.not_lt.mpr hconn.1)
    have hsan := @sanitizeState_disconnected env (c.node i).state
      { (c.node i).state with conn := conn } hconn.2 hn.disk
    rcases Node.setState_cases hset with ⟨rfl, -⟩ | rfl
    · exact hi.set_same (.of_eq rfl) hn
    · refine hi.set_same (.of_eq rfl) (hn.congr (.of_eq rfl) hsan.2.1 (.inl ?_) hn.promoted ?_ ?_)
      · rw [hsan.1]
        exact hconn.2
      · intro _ hrole _ _
        refine .inr (.inl ⟨_, List.mem_append_right _ (List.mem_singleton_self _), ⟨?_, ?_⟩, hrole, ?_⟩)
        · rw [hp]
          decide
        · exact .inr (.inl (hsan.2.2 hp))
        · rw [hsan.2.1]
          decide
      · exact fun hproto hw => .inl (hn.own_of_wrote hnp hproto hw)
  · cases hs

/-! ## The queued work -/

/-- Taking a work off the queue: it was pending, or another one still is. -/
theorem Pending.of_cons {w : DrbdState × DrbdState} {work : List (DrbdState × DrbdState)}
    (hwork : n.work = w :: work) (hn' : n'.work = work) (hp : Pending n) :
    Pending n' ∨ (LostPeerData w.1 w.2 ∧ w.2.role = .primary ∧ .upToDate ≤ w.2.disk) := by
  obtain ⟨x, hx, hlost⟩ := hp
  rw [hwork, List.mem_cons] at hx
  rcases hx with rfl | hx
  · exact .inr hlost
  · exact .inl ⟨x, by rwa [hn'], hlost⟩

theorem Pending.cons {w : DrbdState × DrbdState} {work : List (DrbdState × DrbdState)}
    (hwork : n.work = w :: work) (hn' : n'.work = work) (hp : Pending n') : Pending n := by
  obtain ⟨x, hx, hlost⟩ := hp
  rw [hn'] at hx
  exact ⟨x, by rw [hwork]; exact List.mem_cons_of_mem w hx, hlost⟩

/-- What `thawConnected` leaves alone. -/
theorem thawConnected_eq : (thawConnected ns n).uuid = n.uuid ∧ (thawConnected ns n).work = n.work ∧
    (thawConnected ns n).promoting = n.promoting ∧ (thawConnected ns n).wrote = n.wrote ∧
    (thawConnected ns n).promoted = n.promoted ∧
    (thawConnected ns n).state.conn = n.state.conn ∧ (thawConnected ns n).state.disk = n.state.disk ∧
    (thawConnected ns n).state.pdsk = n.state.pdsk ∧
    (n.state.conn < .connected → thawConnected ns n = n) := by
  unfold thawConnected
  split
  · rename_i hc
    exact ⟨rfl, rfl, rfl, rfl, rfl, rfl, rfl, rfl, fun hlt => absurd hlt (Nat.not_lt.mpr hc.2.2)⟩
  · exact ⟨rfl, rfl, rfl, rfl, rfl, rfl, rfl, rfl, fun _ => rfl⟩

/-- A node that has nothing to draw, and is off one work. -/
theorem NodeInv.work_done (hn : NodeInv protocol h n m) {work : List (DrbdState × DrbdState)}
    (hwork : n.work = (os, ns) :: work) (hneed : ¬ NeedsNewCurrent n os ns ∨ protocol = .s) :
    NodeInv protocol h (thawConnected ns { n with work := work }) m := by
  obtain ⟨huuid, hw', hprom, hwrote, hpromoted, hconn, hdisk, hpdsk, hsame⟩ :=
    @thawConnected_eq { n with work := work } ns
  -- what was pending still is, or there is a bitmap UUID already
  have hpend : protocol ≠ .s → Pending n →
      Own n m ∨ Pending (thawConnected ns { n with work := work }) := by
    intro hproto hp
    rcases hp.of_cons hwork hw' with hp' | ⟨hlost, hrole, hd⟩
    · exact .inr hp'
    · refine .inl (hn.bitmap fun hb => ?_)
      refine (hneed.resolve_right hproto) ⟨hlost, ?_, .inl hrole, hb, hd⟩
      rw [hn.disk]
      decide
  refine hn.congr (.of_eq huuid) (hdisk.trans hn.disk) ?_ ?_ ?_ ?_
  · rcases hn.conn with hlt | ⟨hc, hp, hnp⟩
    · exact .inl (by rw [hconn]; exact hlt)
    · exact .inr ⟨hconn.trans hc, hpdsk.trans hp, fun hp' => hnp (hp'.cons hwork hw')⟩
  · intro hp
    exact hn.promoted (hpromoted ▸ hp)
  · intro hproto hrole hlt hp
    rw [hconn] at hlt
    rw [hsame hlt] at hrole hp hpend ⊢
    rcases hn.primary hproto hrole hlt hp with hown | hpd | hsusp
    · exact .inl hown
    · exact (hpend hproto hpd).imp_right .inl
    · exact .inr (.inr hsusp)
  · intro hproto hw
    rcases hn.wrote hproto (hwrote ▸ hw) with hown | ⟨hpd, hsusp⟩
    · exact .inl hown
    · rcases hn.conn with hlt | ⟨-, -, hnp⟩
      · rw [hsame hlt] at hpend ⊢
        exact (hpend hproto hpd).imp_right fun hp' => ⟨hp', hsusp⟩
      · exact absurd hpd hnp

theorem Inv.afterStateCh (hi : Inv h c) (hf : Fresh c val)
    (hs : step c (.afterStateCh i val) = some c') : Inv h c' := by
  have hn := hi i
  simp only [step] at hs
  split at hs
  · cases hs
  rename_i os ns work hwork
  cases hs
  obtain ⟨huuid, hw', hprom, hwrote, hpromoted, hconn, hdisk, hpdsk, hsame⟩ :=
    @thawConnected_eq { c.node i with work := work } ns
  have hneed : NeedsNewCurrent (thawConnected ns { c.node i with work := work }) os ns ↔
      NeedsNewCurrent (c.node i) os ns := by
    unfold NeedsNewCurrent
    rw [hdisk, huuid]
  have hcn : (thawConnected ns { c.node i with work := work }).state.conn < .connected ∨
      ((thawConnected ns { c.node i with work := work }).state.conn = .connected ∧
        (thawConnected ns { c.node i with work := work }).state.pdsk = .upToDate ∧
        ¬ Pending (thawConnected ns { c.node i with work := work })) := by
    rcases hn.conn with hlt | ⟨hc, hp, hnp⟩
    · exact .inl (by rw [hconn]; exact hlt)
    · exact .inr ⟨hconn.trans hc, hpdsk.trans hp, fun hp' => hnp (hp'.cons hwork hw')⟩
  unfold Divergence.afterStateCh
  dsimp only
  by_cases hnd : NeedsNewCurrent (c.node i) os ns
  · rw [if_pos (hneed.mpr hnd)]
    split
    · -- the IO is frozen: the new UUID is drawn when it is thawed
      rename_i hsusp
      refine hi.set_same (.of_eq huuid) (hn.congr (.of_eq huuid) (hdisk.trans hn.disk) hcn ?_ ?_ ?_)
      · intro hp
        exact hn.promoted (hpromoted ▸ hp)
      · exact fun _ _ _ _ => .inr (.inr ⟨rfl, hsusp⟩)
      · intro hproto hw
        rcases hn.wrote hproto (hwrote ▸ hw) with hown | ⟨hpd, hnsusp⟩
        · exact .inl hown
        · rcases hn.conn with hlt | ⟨-, -, hnp⟩
          · rw [hsame hlt] at hsusp
            exact absurd hsusp hnsusp
          · exact absurd hpd hnp
    · split
      · have hd : Drawn val (c.node i)
            ((thawConnected ns { c.node i with work := work }).newCurrent val) := by
          obtain ⟨h1, h2, h3, h4⟩ := @Node.newCurrent_drawn
            (thawConnected ns { c.node i with work := work }) val
          rw [huuid] at h2 h3 h4
          exact ⟨h1, h2, h3, h4⟩
        refine hi.set_drawn hf hd (.of_own (hd.own hf) (hd.historyStart.trans hn.history) ?_ hcn)
        exact hdisk.trans hn.disk
      · rename_i hproto
        exact hi.set_same (.of_eq huuid) (hn.work_done hwork (.inr (not_not.mp hproto)))
  · rw [if_neg (mt hneed.mp hnd)]
    exact hi.set_same (.of_eq huuid) (hn.work_done hwork (.inl hnd))

/-! ## Role changes -/

/-- A change of the role leaves disk and connection as they are. -/
theorem NodeInv.role_change (hn : NodeInv protocol h n m) (hwork : n.work = []) {r : Role}
    {pdsk : Disk} (hpd : pdsk = n.state.pdsk ∨ pdsk = .outdated)
    (hset : n.setState env false { n.state with role := r, pdsk := pdsk } = some n')
    (hne : n'.state ≠ n.state) :
    n'.uuid = n.uuid ∧ n'.state.role = r ∧ n'.state.disk = .upToDate ∧
      n'.promoting = n.promoting ∧ n'.wrote = n.wrote ∧ n'.promoted = n.promoted ∧
      (n'.state.conn < .connected ∨
        (n'.state.conn = .connected ∧ n'.state.pdsk = .upToDate ∧ ¬ Pending n')) := by
  rcases Node.setState_cases hset with ⟨rfl, -⟩ | rfl
  · exact absurd rfl hne
  · rcases hn.conn with hlt | ⟨hc, hp, -⟩
    · have hsan := @sanitizeState_disconnected env n.state { n.state with role := r, pdsk := pdsk }
        hlt hn.disk
      exact ⟨rfl, sanitizeState_role, hsan.2.1, rfl, rfl, rfl, .inl (by rw [hsan.1]; exact hlt)⟩
    · have hsan := @sanitizeState_connected env n.state { n.state with role := r, pdsk := pdsk }
        hc hn.disk (hpd.imp_left (·.trans hp))
      refine ⟨rfl, sanitizeState_role, hsan.2.1, rfl, rfl, rfl, .inr ⟨hsan.1, hsan.2.2, ?_⟩⟩
      exact not_pending_upToDate (by rw [hwork]; rfl) hsan.2.2

theorem Inv.promote {outdate : Bool} (hi : Inv h c)
    (hs : step c (.promote i env outdate) = some c') : Inv h c' := by
  have hn := hi i
  simp only [step] at hs
  split at hs
  · rename_i hidle
    split at hs
    · cases hs
    rename_i n' hset
    split at hs
    · cases hs
    rename_i hne
    cases hs
    obtain ⟨huuid, -, hdisk, -, hwrote, hpromoted, hconn⟩ :=
      hn.role_change (r := .primary) hidle.2 (by cases outdate <;> simp) hset hne
    refine hi.set_same (.of_eq huuid) (hn.congr (.of_eq huuid) hdisk hconn ?_ ?_ ?_)
    · exact fun hp => hn.promoted (hpromoted ▸ hp)
    · exact fun _ _ _ hp => nomatch hp
    · exact fun hproto hw =>
        .inl (hn.own_of_wrote (not_pending_nil hidle.2) hproto (hwrote ▸ hw))
  · cases hs

theorem Inv.demote (hi : Inv h c) (hs : step c (.demote i env) = some c') : Inv h c' := by
  have hn := hi i
  simp only [step] at hs
  split at hs
  · rename_i hidle
    split at hs
    · cases hs
    rename_i n' hset
    split at hs
    · cases hs
    rename_i hne
    cases hs
    obtain ⟨huuid, hrole, hdisk, -, hwrote, hpromoted, hconn⟩ :=
      hn.role_change (r := .secondary) hidle.2 (.inl rfl) hset hne
    have hsame : SameUuids (c.node i)
        { n' with uuid := { n'.uuid with current := n'.uuid.current &&& ~~~1 } } := by
      rw [huuid]
      exact ⟨base_and _, rfl, rfl, rfl⟩
    refine hi.set_same hsame (hn.congr hsame hdisk hconn ?_ ?_ ?_)
    · exact fun hp => hn.promoted (hpromoted ▸ hp)
    · intro _ hr
      rw [show _ = Role.secondary from hrole] at hr
      cases hr
    · exact fun hproto hw =>
        .inl (hn.own_of_wrote (not_pending_nil hidle.2) hproto (hwrote ▸ hw))
  · cases hs

theorem Inv.promoted (hi : Inv h c) (hf : Fresh c val) (hs : step c (.promoted i val) = some c') :
    Inv h c' := by
  have hn := hi i
  simp only [step] at hs
  split at hs
  · rename_i hidle
    cases hs
    unfold becamePrimary
    dsimp only
    by_cases hdraw : ((c.node i).state.conn < .connected ∨ (c.node i).state.pdsk ≤ .failed) ∧
        (c.node i).uuid.bitmap = 0
    · rw [if_pos hdraw]
      have hd := @Node.newCurrent_drawn (c.node i) val
      refine hi.set_drawn hf ⟨(base_or_one _).trans hd.current, hd.bitmap, rfl, rfl⟩
        (.of_own ?_ hn.history hn.disk hn.conn)
      exact Own.congr (hd.own hf) ⟨base_or_one _, rfl, rfl, rfl⟩
    · rw [if_neg hdraw]
      -- alone, it has a bitmap UUID already
      have hown : (c.node i).state.conn < .connected → Own (c.node i) (c.node !i) :=
        fun hlt => hn.bitmap fun hb => hdraw ⟨.inl hlt, hb⟩
      have hsame : ∀ n' : Node, n'.uuid = { (c.node i).uuid with
          current := (c.node i).uuid.current ||| 1 } → SameUuids (c.node i) n' := by
        intro n' hn'
        constructor <;> rw [hn']
        exact base_or_one _
      refine hi.set_same (hsame _ rfl) (hn.congr (hsame _ rfl) hn.disk hn.conn ?_ ?_ ?_)
      · intro hp
        rcases Bool.or_eq_true_iff.mp hp with hp | hlt
        · exact hn.promoted hp
        · exact hown (of_decide_eq_true hlt)
      · exact fun _ _ hlt _ => .inl (hown hlt)
      · exact fun hproto hw => .inl (hn.own_of_wrote (not_pending_nil hidle.2) hproto hw)
  · cases hs

/-! ## Input and output -/

theorem Inv.write (hi : Inv h c) (hs : step c (.write i) = some c') : Inv h c' := by
  have hn := hi i
  simp only [step] at hs
  split at hs
  · rename_i hrun
    cases hs
    refine hi.set_same (.of_eq rfl) (hn.congr (.of_eq rfl) hn.disk hn.conn hn.promoted hn.primary ?_)
    intro hproto hw
    rcases Bool.or_eq_true_iff.mp hw with hw | hlt
    · exact hn.wrote hproto hw
    · rcases hn.primary hproto hrun.1 (of_decide_eq_true hlt) (Bool.eq_false_iff.mpr hrun.2.1)
        with hown | hpd | hsusp
      · exact .inl hown
      · exact .inr ⟨hpd, hrun.2.2⟩
      · exact absurd hsusp.2 hrun.2.2
  · cases hs

/-- Thawing IO draws the UUID that was put off, and leaves the rest alone. -/
theorem thawAlone_cases : (thawAlone n val = n ∧ n.newCurUuid = false) ∨
    (Drawn val n (thawAlone n val) ∧ (thawAlone n val).state = n.state ∧
      (thawAlone n val).work = n.work) := by
  unfold thawAlone
  split
  · exact .inr ⟨⟨base_uuidSet_current, rfl, rfl, rfl⟩, rfl, rfl⟩
  · exact .inl ⟨rfl, Bool.eq_false_iff.mpr ‹_›⟩

theorem Inv.resumeIo (hi : Inv h c) (hf : Fresh c val) (hs : step c (.resumeIo i val) = some c') :
    Inv h c' := by
  have hn := hi i
  simp only [step, Option.some.injEq] at hs
  subst hs
  rcases @thawAlone_cases (c.node i) val with ⟨heq, hflag⟩ | ⟨hd, hstate, hwork⟩
  · rw [heq]
    refine hi.set_same (.of_eq rfl) (hn.congr (.of_eq rfl) hn.disk hn.conn hn.promoted ?_ ?_)
    · intro hproto hrole hlt hp
      rcases hn.primary hproto hrole hlt hp with hown | hpd | hsusp
      · exact .inl hown
      · exact .inr (.inl hpd)
      · exact absurd hsusp.1 (by rw [hflag]; decide)
    · intro hproto hw
      exact (hn.wrote hproto hw).imp_right fun hpd => ⟨hpd.1, by simp [DrbdState.isSusp]⟩
  · have hconn : (thawAlone (c.node i) val).state.conn < .connected ∨
        ((thawAlone (c.node i) val).state.conn = .connected ∧
          (thawAlone (c.node i) val).state.pdsk = .upToDate ∧ ¬ Pending (thawAlone (c.node i) val)) := by
      unfold Pending
      rw [hwork, hstate]
      exact hn.conn
    refine hi.set_drawn hf ⟨hd.current, hd.bitmap, hd.historyStart, hd.historyEnd⟩ (.of_own ?_
      (hd.historyStart.trans hn.history) ?_ ?_)
    · exact Own.congr (hd.own hf) (.of_eq rfl)
    · exact (congrArg DrbdState.disk hstate).trans hn.disk
    · exact hconn

theorem Inv.fenced (hi : Inv h c) (hf : Fresh c val) (hs : step c (.fenced i val) = some c') :
    Inv h c' := by
  have hn := hi i
  simp only [step] at hs
  split at hs
  · rename_i hidle
    cases hs
    rcases @thawAlone_cases (c.node i) val with ⟨heq, hflag⟩ | ⟨hd, hstate, hwork⟩
    · rw [heq]
      refine hi.set_same (.of_eq rfl) (hn.congr (.of_eq rfl) hn.disk (.inl hidle.2.1) hn.promoted ?_ ?_)
      · intro hproto hrole hlt hp
        rcases hn.primary hproto hrole hlt hp with hown | hpd | hsusp
        · exact .inl hown
        · exact absurd hpd (not_pending_nil hidle.2.2)
        · exact absurd hsusp.1 (by rw [hflag]; decide)
      · exact fun hproto hw => .inl (hn.own_of_wrote (not_pending_nil hidle.2.2) hproto hw)
    · refine hi.set_drawn hf ⟨hd.current, hd.bitmap, hd.historyStart, hd.historyEnd⟩ (.of_own ?_
        (hd.historyStart.trans hn.history) ?_ (.inl ?_))
      · exact Own.congr (hd.own hf) (.of_eq rfl)
      · exact (congrArg DrbdState.disk hstate).trans hn.disk
      · have hlt := hidle.2.1
        rwa [← hstate] at hlt
  · cases hs

/-! ## Connecting again -/

/-- Equal UUIDs: neither node has a generation of its own, so neither has written. -/
theorem NodeInv.connect (hn : NodeInv protocol h n m) (hnot : ¬ Own n m) (hwork : n.work = []) {r : Role}
    (hc : n.connect env r = some n') : n'.uuid = n.uuid ∧ NodeInv protocol h n' m := by
  unfold Node.connect at hc
  have hsan := @sanitizeState_connected env { n.state with conn := .wfReportParams }
    { n.state with conn := .connected, peer := r, pdsk := .upToDate } rfl hn.disk (.inl rfl)
  rcases Node.setState_cases hc with ⟨-, hsame⟩ | rfl
  · rw [hsame] at hsan
    exact nomatch hsan.1
  · refine ⟨rfl, hn.congr (.of_eq rfl) hsan.2.1 (.inr ⟨hsan.1, hsan.2.2, ?_⟩) hn.promoted ?_ ?_⟩
    · exact not_pending_upToDate (by rw [hwork]; rfl) hsan.2.2
    · intro _ _ hlt
      rw [hsan.1] at hlt
      exact absurd hlt (by decide)
    · exact fun hproto hw => absurd (hn.own_of_wrote (not_pending_nil hwork) hproto hw) hnot

theorem Inv.connect {env : Bool → Env} {r : Bool} {version : Nat} (hi : Inv h c)
    (hs : step c (.connect env r version) = some c') : Inv h c' := by
  simp only [step] at hs
  split at hs
  · rename_i hready
    have hnot : ∀ j, ¬ Own (c.node j) (c.node !j) :=
      fun j hown => hown.compare_ne_zero (hready.2 j)
    split at hs
    · rename_i a b ha hb
      cases hs
      obtain ⟨hua, hna⟩ := (hi false).connect (hnot false) (hready.1 false).2.1 ha
      obtain ⟨hub, hnb⟩ := (hi true).connect (hnot true) (hready.1 true).2.1 hb
      intro j
      cases j with
      | false => exact hna.peer_congr fun hown => hown.peer_congr (.of_eq hub)
      | true => exact hnb.peer_congr fun hown => hown.peer_congr (.of_eq hua)
    · cases hs
  · cases hs

theorem Inv.step (hi : Inv h c) (hf : DrawsFresh c e) (hs : step c e = some c') : Inv h c' := by
  cases e with
  | lose i env conn => exact hi.lose hs
  | afterStateCh i val => exact hi.afterStateCh hf hs
  | promote i env outdate => exact hi.promote hs
  | promoted i val => exact hi.promoted hf hs
  | demote i env => exact hi.demote hs
  | write i => exact hi.write hs
  | resumeIo i val => exact hi.resumeIo hf hs
  | fenced i val => exact hi.fenced hf hs
  | connect env r version => exact hi.connect hs

end Drbd.Divergence
