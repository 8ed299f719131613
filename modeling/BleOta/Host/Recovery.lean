import BleOta.Host.Transfer

/-!
# A sector whose acknowledgement is lost

The device has completed the sector, the host has not got the acknowledgement and sends the sector
again. The component rejects its first packet: it queues the frame with the sector that it expects,
and answers the write with an ATT error. The write raises before `send_sector` looks at a frame, so
the branch that follows the frame is not reached.

* `LostAck fw i n`: the timeout of the sector `i`, which the device has completed.
* `Doomed.step`: while the link is up, the host is at that resend, or it has left the transfer.
* `lost_ack_aborts`: `send_sector` does not return, and the resend ends the transfer.
-/

namespace BleOta.Host

variable {fw : List UInt8} {mtuSize i : Nat} {n n' : Net}

/-- The step is no write with a failing link. -/
def NetLabel.LinkUp : NetLabel → Prop
  | .write (.down ..) => False
  | _ => True

/-- The host has written all packets of the sector `i` and its wait has timed out; the device has
completed the sector. -/
def LostAck (fw : List UInt8) (i : Nat) (n : Net) : Prop :=
  ∃ s, n.host.pc = .sending s ∧ s.sectorIndex = i ∧ s.rest = [] ∧ s.waiter = .expired ∧
    n.delivered = firstSectors fw (i + 1)

/-- The transfer goes on: with the link up, `send_sector` can return the index of the sector that
it sends, or a later one. -/
def Recovers (fw : List UInt8) (mtuSize i : Nat) (n : Net) : Prop :=
  ∃ n', (system fw mtuSize).Run (fun _ l => l.LinkUp) n n' ∧ n'.host.pc = .loop ∧
    i < n'.host.current

/-- The host is at the resend of the sector `i`, of which it has written nothing, or it has left the
transfer without `transfer_ok`. -/
def Doomed (fw : List UInt8) (mtuSize i : Nat) (n : Net) : Prop :=
  match n.host.pc with
  | .loop => False
  | .sending s => s.sectorIndex = i ∧ n.host.current = i ∧ i < totalSectors fw ∧
      Planned (mtuSize - 6) i (sectorData fw i) 0 0 s.packets ∧ Ready fw (i + 1) n ∧
      (s.rest = s.packets ∨ (s.rest = [] ∧ s.waiter = .expired))
  | .finished ok => ok = false
  | .raised => True

/-! ## The firmware may have any length -/

/-- The invariant of the transfer holds as long as the index of the sector fits in 16 bits. -/
theorem Inv.reach_short (hmtu : 23 ≤ mtuSize) (hr : (system fw mtuSize).Reach n)
    (hlen : n.delivered.length < 65536) : Inv fw mtuSize n := by
  revert hlen
  refine hr.invariant (I := fun n => n.delivered.length < 65536 → Inv fw mtuSize n) ?_
    fun l s s' _ hs hst hlen => ?_
  · rintro _ ⟨c, rfl⟩ -
    exact Inv.start fw mtuSize c
  · have hle := Nat.lt_of_le_of_lt (step_delivered hst).length_le hlen
    exact (hs hle).step hmtu (fun _ _ => hle) hst

/-! ## The resend -/

theorem LostAck.doomed (hmtu : 23 ≤ mtuSize) (hi : i < 65535) (hr : (system fw mtuSize).Reach n)
    (h : LostAck fw i n) : Doomed fw mtuSize i n := by
  obtain ⟨s, hpc, hidx, hnil, hexp, hdel⟩ := h
  have hlen : n.delivered.length < 65536 := by
    rw [hdel, firstSectors_length]
    omega
  have hinv := Inv.reach_short hmtu hr hlen
  unfold Inv at hinv
  rw [hpc] at hinv
  obtain ⟨hcur, hlt, hpl, hphase⟩ := hinv
  rw [hidx] at hcur
  rw [← hcur] at hlt hpl hphase
  unfold Doomed
  rw [hpc]
  refine ⟨hidx, hcur.symm, hlt, hpl, ?_, .inr ⟨hnil, hexp⟩⟩
  cases hphase with
  | filling seq _ hr => exact absurd hnil hr.ne_nil
  | behind _ _ _ hr => exact absurd (hr.symm.trans hnil) hpl.ne_nil
  | taken hready => exact hready
  | ahead _ hr => exact absurd (hr.symm.trans hnil) hpl.ne_nil

/-- The first packet of the resend raises. -/
theorem Doomed.write (hi : i < 65535) (h : Doomed fw mtuSize i n)
    (hst : Net.step fw mtuSize (.write .up) n = some n') : n'.host.pc = .raised := by
  cases Net.step_act hst with
  | @write s pkt rest _ hpc hr =>
    unfold Doomed at h
    rw [hpc] at h
    obtain ⟨hidx, hcur, hlt, hpl, hready, hrest⟩ := h
    have hpk : s.packets = pkt :: rest := by
      rcases hrest with hrest | ⟨hnil, -⟩
      · rw [← hrest, hr]
      · rw [hr] at hnil
        cases hnil
    rw [hpk] at hpl
    have hatt := (hready.reject (s := s) hpl hi 0).1
    unfold Net.writePacket
    dsimp only
    rw [if_neg hatt]

/-- A timeout: the resend, or the transfer ends without `transfer_ok`. -/
theorem Doomed.retry {s : SendSector} (hpc : n.host.pc = .sending s) (h : Doomed fw mtuSize i n) :
    Doomed fw mtuSize i { n with host := n.host.retry fw s } := by
  unfold Doomed at h
  rw [hpc] at h
  obtain ⟨hidx, hcur, hlt, hpl, hready, -⟩ := h
  unfold HostSt.retry
  dsimp only
  split
  · have hle : ¬totalSectors fw ≤ n.host.current := by omega
    exact decide_eq_false hle
  · exact ⟨hidx, hcur, hlt, hpl, ⟨hready.delivered, hready.comp, hready.inOrder⟩, .inl rfl⟩

/-- An indication leaves the way; the waiter of a resend may get it. -/
theorem Doomed.arrive (h : Doomed fw mtuSize i n) (flight : List (List UInt8))
    (frame : List UInt8) :
    Doomed fw mtuSize i { n with flight := flight } ∧
      Doomed fw mtuSize i (Net.receive frame { n with flight := flight }) := by
  have hdrop : Doomed fw mtuSize i { n with flight := flight } := by
    unfold Doomed at h ⊢
    dsimp only
    split at h
    · exact h.elim
    · obtain ⟨hidx, hcur, hlt, hpl, hready, hrest⟩ := h
      exact ⟨hidx, hcur, hlt, hpl, ⟨hready.delivered, hready.comp, hready.inOrder⟩, hrest⟩
    · exact h
    · exact h
  refine ⟨hdrop, ?_⟩
  unfold Net.receive
  dsimp only
  split
  next s hpc =>
    split
    next harmed =>
      unfold Doomed at hdrop ⊢
      simp only [hpc] at hdrop
      obtain ⟨hidx, hcur, hlt, hpl, hready, hrest⟩ := hdrop
      refine ⟨hidx, hcur, hlt, hpl, ⟨hready.delivered, hready.comp, hready.inOrder⟩, .inl ?_⟩
      rcases hrest with hrest | ⟨-, hexp⟩
      · exact hrest
      · rw [harmed] at hexp
        cases hexp
    · exact hdrop
  · exact hdrop

/-- Every step with the link up keeps it. -/
theorem Doomed.step (hi : i < 65535) {l : NetLabel} (hl : l.LinkUp)
    (h : Doomed fw mtuSize i n) (hst : Net.step fw mtuSize l n = some n') :
    Doomed fw mtuSize i n' := by
  cases Net.step_act hst with
  | enter hpc | leave hpc =>
    unfold Doomed at h
    rw [hpc] at h
    exact h.elim
  | @write _ _ _ link =>
    cases link with
    | down => exact hl.elim
    | up =>
      have hraised := h.write hi hst
      unfold Doomed
      rw [hraised]
      trivial
  | timeout hpc => exact h.retry hpc
  | frame hpc hnil hgot =>
    -- the resend has packets to write, or its wait is over
    unfold Doomed at h
    rw [hpc] at h
    obtain ⟨-, -, -, hpl, -, hrest | ⟨-, hexp⟩⟩ := h
    · exact absurd (hrest.symm.trans hnil) hpl.ne_nil
    · rw [hgot] at hexp
      cases hexp
  | expire hpc =>
    unfold Doomed at h ⊢
    rw [hpc] at h
    obtain ⟨hidx, hcur, hlt, hpl, hready, hrest⟩ := h
    exact ⟨hidx, hcur, hlt, hpl, ⟨hready.delivered, hready.comp, hready.inOrder⟩,
      hrest.imp_right fun hr => ⟨hr.1, rfl⟩⟩
  | indicate => exact (h.arrive _ _).2
  | lose => exact (h.arrive _ []).1

theorem Doomed.run (hi : i < 65535) (h : Doomed fw mtuSize i n)
    (hr : (system fw mtuSize).Run (fun _ l => l.LinkUp) n n') : Doomed fw mtuSize i n' :=
  hr.invariant (fun _ _ _ hs hl hst => hs.step hi hl hst) h

/-- `send_sector` does not return from the resend. -/
theorem Doomed.not_recovers (hi : i < 65535) (h : Doomed fw mtuSize i n) :
    ¬Recovers fw mtuSize i n := by
  rintro ⟨n', hrun, hpc, -⟩
  have hd := h.run hi hrun
  unfold Doomed at hd
  rw [hpc] at hd
  exact hd

/-- **A lost acknowledgement ends the transfer**, for every firmware and every sector of it whose
successor a rejection can name (with 16 bits; `0xFFFF` is taken as any sector): with the link up
`send_sector` never returns, `transfer_ok` is not reached, and a write of the resend raises. -/
theorem lost_ack_aborts (hmtu : 23 ≤ mtuSize) (hi : i < 65535) (hr : (system fw mtuSize).Reach n)
    (h : LostAck fw i n) :
    ¬Recovers fw mtuSize i n ∧
    ∀ n', (system fw mtuSize).Run (fun _ l => l.LinkUp) n n' →
      n'.host.pc ≠ .finished true ∧
      ∀ n'', Net.step fw mtuSize (.write .up) n' = some n'' → n''.host.pc = .raised := by
  have hd := h.doomed hmtu hi hr
  refine ⟨hd.not_recovers hi, fun n' hrun => ?_⟩
  have hd' := hd.run hi hrun
  refine ⟨fun hpc => ?_, fun n'' hst => hd'.write hi hst⟩
  unfold Doomed at hd'
  rw [hpc] at hd'
  cases hd'

/-- A firmware of three bytes: the acknowledgement of its only sector is lost. -/
def lostThreeBytes : Net :=
  (system [1, 2, 3] 23).run [.enter, .write .up, .lose 0, .expire]
    (.start [1, 2, 3] { Component.zero with otaNotification := ⟨true, true, true, true⟩ })

theorem lostThreeBytes_reach : (system [1, 2, 3] 23).Reach lostThreeBytes := by
  have hi (c : Component) : (system [1, 2, 3] 23).Reach (.start [1, 2, 3] c) := .init ⟨c, rfl⟩
  exact Lib.Lts.run_reach (hi _) _

theorem lostThreeBytes_lost : LostAck [1, 2, 3] 0 lostThreeBytes := by
  have hpc : ∃ s, lostThreeBytes.host.pc = .sending s ∧ s.sectorIndex = 0 ∧ s.rest = [] ∧
      s.waiter = .expired := ⟨_, rfl, rfl, rfl, rfl⟩
  obtain ⟨s, hpc, hidx, hnil, hexp⟩ := hpc
  exact ⟨s, hpc, hidx, hnil, hexp, by decide +kernel⟩

/-- The write of its resend raises. -/
theorem lost_ack_aborts_threeBytes : ¬Recovers [1, 2, 3] 23 0 lostThreeBytes :=
  (lost_ack_aborts (by decide) (by decide) lostThreeBytes_reach lostThreeBytes_lost).1

theorem resend_raises :
    ¬∀ (fw : List UInt8) (mtuSize i : Nat) (n : Net), 23 ≤ mtuSize →
      (system fw mtuSize).Reach n → LostAck fw i n → Recovers fw mtuSize i n := by
  intro hall
  have hrec := hall [1, 2, 3] 23 0 lostThreeBytes (by decide) lostThreeBytes_reach
    lostThreeBytes_lost
  have hd := lostThreeBytes_lost.doomed (by decide : 23 ≤ 23) (by decide) lostThreeBytes_reach
  exact hd.not_recovers (by decide) hrec

end BleOta.Host
