import Mathlib.Algebra.BigOperators.Intervals
import BleOta.Host.Transfer

/-!
# A transfer without losses

Every write is answered, no indication is lost and no wait times out (`NetLabel.Lossless`).

* `Alive`: the component has the packets that the host has written of its sector, or the
  acknowledgement of the sector is on the way or has arrived. So no write gets an error, and the
  host does not wait in vain. `Alive.step`: every such step keeps that.
* `HostSt.rank`: what is left for the host to do; every such step lowers it.
-/

namespace BleOta.Host

open Finset (Ico)

variable {fw : List UInt8} {mtuSize chunk k : Nat} {n n' : Net} {s : SendSector}

/-- A step that loses nothing. -/
def NetLabel.Lossless : NetLabel → Prop
  | .enter | .write .up | .wait | .indicate _ => True
  | _ => False

/-- In the middle of `send_sector`, without losses. -/
inductive Sending (fw : List UInt8) (chunk k : Nat) (s : SendSector) (n : Net) : Prop
  | writing (seq : Nat) : Partly fw chunk k seq s n →
      Planned chunk k (sectorData fw k) seq (seq * chunk) s.rest →
      s.rest.length ≤ s.packets.length → s.waiter = .armed → Sending fw chunk k s n
  | waiting {b0 b1 : UInt8} : Ready fw (k + 1) n → s.rest = [] → s.waiter = .armed →
      n.flight = [successAck b0 b1] → Sending fw chunk k s n
  | acked {b0 b1 : UInt8} : Ready fw (k + 1) n → s.rest = [] →
      s.waiter = .got (successAck b0 b1) → n.flight = [] → Sending fw chunk k s n

/-- The invariant of a transfer without losses, to a client that has subscribed. -/
structure Alive (fw : List UInt8) (mtuSize : Nat) (n : Net) : Prop where
  subscribed : n.comp.otaNotification.recvFw = true
  host : match n.host.pc with
    | .loop => True
    | .sending s => Sending fw (mtuSize - 6) n.host.current s n
    | .finished ok => ok = true ∧ n.flight = []
    | .raised => False

/-! ## What is left to do -/

/-- The steps of a sector. -/
def sectorRank (fw : List UInt8) (mtuSize k : Nat) : Nat :=
  match planSectorPackets mtuSize k fw with
  | .ok packets => packets.length + 3
  | .error _ => 0

/-- What is left of a sector. -/
def SendSector.rank (s : SendSector) : Nat := s.rest.length + if s.waiter = .armed then 3 else 2

/-- What is left for the host to do. -/
def HostSt.rank (fw : List UInt8) (mtuSize : Nat) (h : HostSt) : Nat :=
  match h.pc with
  | .loop => 1 + ∑ k ∈ Ico h.current (totalSectors fw), sectorRank fw mtuSize k
  | .sending s => s.rank + ∑ k ∈ Ico (h.current + 1) (totalSectors fw), sectorRank fw mtuSize k
  | .finished _ | .raised => 0

/-! ## The steps -/

/-- A subscription is not touched by a packet. -/
theorem handle_subscribed (pkt : List UInt8) :
    (n.handle pkt).comp.otaNotification = n.comp.otaNotification := by
  have h := (recvFwWrite_frame pkt n.comp).2.2
  unfold Net.handle
  dsimp only
  split <;> exact h

/-- The packet that completes a sector is acknowledged. -/
theorem handle_acked {pkt : List UInt8} (hsub : n.comp.otaNotification.recvFw = true)
    (hflight : n.flight = []) (hd : (n.handle pkt).delivered ≠ n.delivered) :
    ∃ frame, (n.handle pkt).flight = [frame] := by
  rcases ho : recvFwWrite pkt n.comp with ⟨c, ⟨frame, err⟩ | ⟨sector, data, frame⟩⟩
  · exact absurd (handle_delivered ho).1 hd
  · refine ⟨frame, ?_⟩
    unfold Net.handle
    rw [ho]
    simp [espBleOtaNotificationData, hflight, hsub]

/-- The component takes the next packet, and acknowledges the last one. -/
theorem Sending.write {pkt : List UInt8} {rest : List (List UInt8)}
    (h : Sending fw chunk k s n) (hsub : n.comp.otaNotification.recvFw = true)
    (hr : s.rest = pkt :: rest) (hk : k < 65536) (hchunk : 17 ≤ chunk) :
    attStatus (recvFwWrite pkt n.comp).2 = 0 ∧
      Sending fw chunk k { s with rest := rest } (n.handle pkt) := by
  cases h with
  | waiting _ hnil | acked _ hnil => exact absurd (hnil.symm.trans hr) (List.cons_ne_nil _ _).symm
  | writing seq hp hpl hle harmed =>
    rw [hr] at hpl hle
    obtain ⟨hok, hphase⟩ := hp.write hpl hk hchunk
    refine ⟨hok, ?_⟩
    have hlt : rest.length < s.packets.length := hle
    cases hphase with
    | filling seq' hp' hpl' => exact .writing seq' hp' hpl' (Nat.le_of_lt hlt) harmed
    | behind _ _ _ hall | ahead _ hall =>
      have hall : rest = s.packets := hall
      rw [hall] at hlt
      exact absurd hlt (Nat.lt_irrefl _)
    | taken hready hnil _ hack =>
      have hd : (n.handle pkt).delivered ≠ n.delivered := by
        intro he
        have := congrArg List.length (hready.delivered.symm.trans (he.trans hp.delivered))
        rw [firstSectors_length, firstSectors_length] at this
        omega
      obtain ⟨frame, hflight⟩ := handle_acked hsub hp.flight hd
      obtain ⟨b0, b1, rfl⟩ := hack frame (by simp [outstanding, hflight])
      exact .waiting hready hnil harmed hflight

theorem Sending.host (h : Sending fw chunk k s n) (host : HostSt) :
    Sending fw chunk k s { n with host := host } := by
  cases h with
  | writing seq hp hpl hle harmed =>
    exact .writing seq ⟨hp.delivered, hp.flight, hp.waiter, hp.comp, hp.inOrder⟩ hpl hle harmed
  | waiting hr hnil harmed hf =>
    exact .waiting ⟨hr.delivered, hr.comp, hr.inOrder⟩ hnil harmed hf
  | acked hr hnil hgot hf => exact .acked ⟨hr.delivered, hr.comp, hr.inOrder⟩ hnil hgot hf

/-- The host takes the acknowledgement for the next sector. -/
theorem onFrame_successAck {b0 b1 : UInt8} (h : HostSt) :
    h.onFrame fw mtuSize s (successAck b0 b1) =
      { h with
        lastAckedSector := max h.lastAckedSector s.sectorIndex, current := s.sectorIndex + 1,
        pc := .loop } := by
  unfold HostSt.onFrame
  rw [if_neg (fun hx => hx rfl), if_neg (fun hx => hx verifyAckCrc_cmdAck)]
  simp only [unpackH_successAck, if_true]

theorem Alive.enter (hmtu : 23 ≤ mtuSize) (hi : Inv fw mtuSize n) (h : Alive fw mtuSize n)
    (hst : Net.step fw mtuSize .enter n = some n') :
    Alive fw mtuSize n' ∧ n'.host.rank fw mtuSize < n.host.rank fw mtuSize := by
  cases hpc : n.host.pc with
  | loop =>
    unfold Inv at hi
    rw [hpc] at hi
    obtain ⟨hle, hready, hflight⟩ := hi
    simp only [Net.step, hpc] at hst
    by_cases hlt : n.host.current < totalSectors fw
    · rw [if_pos hlt] at hst
      cases hst
      obtain ⟨packets, hp, hpl⟩ := planSectorPackets_planned hmtu hlt
      simp only [HostSt.pass, hp]
      have hwaiter (frame : List UInt8) : Waiter.armed ≠ .got frame := by rintro ⟨⟩
      refine ⟨⟨h.subscribed, .writing 0 ⟨hready.delivered, hflight, hwaiter, ?_, ?_⟩ ?_ le_rfl rfl⟩,
        ?_⟩
      · simpa using hready.comp
      · intro hx
        exact absurd (hready.inOrder.symm.trans hx) Bool.false_ne_true
      · simpa using hpl
      · have hrank : sectorRank fw mtuSize n.host.current = packets.length + 3 := by
          simp [sectorRank, hp]
        simp only [HostSt.rank, hpc, SendSector.rank, if_true,
          Finset.sum_eq_sum_Ico_succ_bot hlt, hrank]
        omega
    · rw [if_neg hlt] at hst
      cases hst
      refine ⟨⟨h.subscribed, decide_eq_true (by omega), hflight⟩, ?_⟩
      simp only [HostSt.rank, HostSt.leave, hpc]
      omega
  | sending | finished | raised => simp [Net.step, hpc] at hst

theorem Alive.write (hmtu : 23 ≤ mtuSize) (htotal : totalSectors fw < 65536)
    (hi : Inv fw mtuSize n) (h : Alive fw mtuSize n)
    (hst : Net.step fw mtuSize (.write .up) n = some n') :
    Alive fw mtuSize n' ∧ n'.host.rank fw mtuSize < n.host.rank fw mtuSize := by
  cases hpc : n.host.pc with
  | sending s =>
    cases hr : s.rest with
    | nil => simp [Net.step, hpc, hr] at hst
    | cons pkt rest =>
      unfold Inv at hi
      rw [hpc] at hi
      have hsend := h.host
      rw [hpc] at hsend
      obtain ⟨hok, hnext⟩ := hsend.write h.subscribed hr
        (Nat.lt_trans hi.2.1 htotal) (by omega)
      simp only [Net.step, hpc, hr, Net.writePacket, if_pos hok] at hst
      cases hst
      refine ⟨⟨?_, hnext.host _⟩, ?_⟩
      · show (n.handle pkt).comp.otaNotification.recvFw = true
        rw [handle_subscribed]
        exact h.subscribed
      · simp only [HostSt.rank, hpc, SendSector.rank, hr, List.length_cons]
        omega
  | loop | finished | raised => simp [Net.step, hpc] at hst

theorem Alive.wait (hi : Inv fw mtuSize n) (h : Alive fw mtuSize n)
    (hst : Net.step fw mtuSize .wait n = some n') :
    Alive fw mtuSize n' ∧ n'.host.rank fw mtuSize < n.host.rank fw mtuSize := by
  cases hpc : n.host.pc with
  | sending s =>
    unfold Inv at hi
    rw [hpc] at hi
    have hsend := h.host
    rw [hpc] at hsend
    cases hsend with
    | writing seq _ hpl =>
      simp [Net.step, hpc, hpl.ne_nil] at hst
    | waiting _ hnil harmed => simp [Net.step, hpc, hnil, harmed] at hst
    | acked hready hnil hgot =>
      simp only [Net.step, hpc, hnil, hgot, if_true] at hst
      cases hst
      rw [onFrame_successAck]
      refine ⟨⟨h.subscribed, trivial⟩, ?_⟩
      simp [HostSt.rank, hpc, SendSector.rank, hnil, hgot, hi.1]
  | loop | finished | raised => simp [Net.step, hpc] at hst

theorem Alive.indicate {i : Nat} (hi : Inv fw mtuSize n) (h : Alive fw mtuSize n)
    (hst : Net.step fw mtuSize (.indicate i) n = some n') :
    Alive fw mtuSize n' ∧ n'.host.rank fw mtuSize < n.host.rank fw mtuSize := by
  have hempty : n.flight ≠ [] := by
    intro hx
    simp [Net.step, hx] at hst
  have hhost := h.host
  cases hpc : n.host.pc with
  | loop =>
    unfold Inv at hi
    rw [hpc] at hi
    exact absurd hi.2.2 hempty
  | finished ok =>
    rw [hpc] at hhost
    exact absurd hhost.2 hempty
  | raised =>
    rw [hpc] at hhost
    exact hhost.elim
  | sending s =>
    rw [hpc] at hhost
    cases hhost with
    | writing _ hp => exact absurd hp.flight hempty
    | acked _ _ _ hf => exact absurd hf hempty
    | waiting hready hnil harmed hf =>
      cases i with
      | succ i => simp [Net.step, hf] at hst
      | zero =>
        simp only [Net.step, hf, List.getElem?_cons_zero, Net.receive, hpc, harmed, if_true] at hst
        cases hst
        refine ⟨⟨h.subscribed, ?_⟩, ?_⟩
        · exact .acked ⟨hready.delivered, hready.comp, hready.inOrder⟩ hnil rfl rfl
        · simp [HostSt.rank, hpc, SendSector.rank, hnil, harmed]

/-- **Every step** without a loss keeps the invariant, and there is less left to do. -/
theorem Alive.step {l : NetLabel} (hmtu : 23 ≤ mtuSize) (htotal : totalSectors fw < 65536)
    (hi : Inv fw mtuSize n) (h : Alive fw mtuSize n) (hl : l.Lossless)
    (hst : Net.step fw mtuSize l n = some n') :
    Alive fw mtuSize n' ∧ n'.host.rank fw mtuSize < n.host.rank fw mtuSize := by
  cases l with
  | enter => exact h.enter hmtu hi hst
  | wait => exact h.wait hi hst
  | indicate i => exact h.indicate hi hst
  | write link =>
    cases link with
    | up => exact h.write hmtu htotal hi hst
    | down => exact hl.elim
  | expire | lose => exact hl.elim

end BleOta.Host
