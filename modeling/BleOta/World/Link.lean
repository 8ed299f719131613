import BleOta.Device.Transfer
import BleOta.Host.Transfer
import BleOta.World.Defs

/-!
# The whole device behaves as its component

For the host the device is its component, with the indication of a sector one handler later.
`World.net` sends that indication at once.

* `hostStep_net`: a step of the host is a step of `Host.Net`; the steps of the two tasks of the
  device are none (`nimbleStep_net`, `pumpStep_net`).
* `Whole`: what the component has delivered is a number of whole sectors, in order.
-/

namespace BleOta

open Lib (Ring)
open Host (Net NetLabel HostSt SendSector firstSectors totalSectors sectorData)

variable {B : Board} {fw : List UInt8} {mtuSize : Nat}

/-! ## The sectors that are delivered -/

namespace Host

/-- The first sectors of the firmware. -/
def Whole (fw : List UInt8) (delivered : List (List UInt8)) : Prop :=
  ∃ k, k ≤ totalSectors fw ∧ delivered = firstSectors fw k

theorem Inv.whole {n : Net} (h : Inv fw mtuSize n)
    (hpc : n.host.pc = .loop ∨ ∃ s, n.host.pc = .sending s) : Whole fw n.delivered := by
  unfold Inv at h
  rcases hpc with hpc | ⟨s, hpc⟩ <;> rw [hpc] at h
  · exact ⟨_, h.1, h.2.1.delivered⟩
  · obtain ⟨-, hlt, -, hphase⟩ := h
    cases hphase with
    | filling _ hp | behind hp => exact ⟨_, Nat.le_of_lt hlt, hp.delivered⟩
    | taken hr | ahead hr => exact ⟨_, hlt, hr.delivered⟩

/-- A packet of the host keeps that, whatever becomes of its response. -/
theorem Inv.handle_whole {n : Net} {s : SendSector} {pkt : List UInt8} {rest : List (List UInt8)}
    (hmtu : 23 ≤ mtuSize) (htotal : totalSectors fw < 65536) (h : Inv fw mtuSize n)
    (hpc : n.host.pc = .sending s) (hrest : s.rest = pkt :: rest) :
    Whole fw (n.handle pkt).delivered := by
  rcases ho : recvFwWrite pkt n.comp with ⟨c, ⟨frame, err⟩ | ⟨sector, data, frame⟩⟩
  · rw [(handle_delivered ho).1]
    exact h.whole (.inr ⟨s, hpc⟩)
  · have hlen : n.delivered.length < 65536 := Nat.lt_of_le_of_lt (h.delivered_le hpc) htotal
    have hw : Inv fw mtuSize (n.writePacket fw s pkt rest .up) := h.write hmtu hlen hpc hrest
    have hup : (Net.writePacket fw s pkt rest .up n).host.pc =
        .sending { s with rest := rest } := by
      simp [Net.writePacket, ho, attStatus]
    exact hw.whole (.inr ⟨_, hup⟩)

/-- What a step of the host that is no write does is the same with more on the way. -/
theorem step_due {n n' : Net} {l : NetLabel} (due : List (List UInt8))
    (hl : ∀ link, l ≠ .write link) (h : Net.step fw mtuSize l n = some n') :
    Net.step fw mtuSize l { n with flight := n.flight ++ due } =
      some { n' with flight := n'.flight ++ due } ∧ n'.comp = n.comp ∧
      n'.delivered = n.delivered := by
  cases Net.step_act h with
  | write => exact absurd rfl (hl _)
  | enter hpc hlt => exact ⟨by simp [Net.step, hpc, hlt], rfl, rfl⟩
  | leave hpc hge => exact ⟨by simp [Net.step, hpc, Nat.not_lt.mpr hge], rfl, rfl⟩
  | timeout hpc hnil hw | frame hpc hnil hw =>
    exact ⟨by simp [Net.step, hpc, hnil, hw], rfl, rfl⟩
  | expire hpc hw => exact ⟨by simp [Net.step, hpc, hw], rfl, rfl⟩
  | @indicate i frame hi =>
    obtain ⟨hlt, -⟩ := List.getElem?_eq_some_iff.mp hi
    obtain ⟨hdel, hcomp, -⟩ := receive_kept frame { n with flight := n.flight.eraseIdx i }
    refine ⟨?_, hcomp, hdel⟩
    have hstep : Net.step fw mtuSize (.indicate i) { n with flight := n.flight ++ due } =
        some (Net.receive frame { n with flight := n.flight.eraseIdx i ++ due }) := by
      simp [Net.step, List.getElem?_append_left hlt, hi, List.eraseIdx_append_of_lt_length hlt]
    rw [hstep]
    unfold Net.receive
    cases hpc : n.host.pc with
    | sending s => by_cases hw : s.waiter = .armed <;> simp [hw]
    | loop | finished | raised => simp
  | @lose i hlt =>
    have hlt' : i < n.flight.length + due.length := by omega
    exact ⟨by simp [Net.step, hlt', List.eraseIdx_append_of_lt_length hlt], rfl, rfl⟩

/-- No sector is empty. -/
theorem sectorData_ne_nil {k : Nat} (hk : k < totalSectors fw) : sectorData fw k ≠ [] := by
  intro h
  have hlen := congrArg List.length h
  simp only [sectorData, List.length_take, List.length_drop, List.length_nil] at hlen
  unfold totalSectors at hk
  unfold sectorSize at hk hlen
  omega

theorem Whole.ne_nil {delivered : List (List UInt8)} (h : Whole fw delivered) {data : List UInt8}
    (hd : data ∈ delivered) : data ≠ [] := by
  obtain ⟨k, hk, rfl⟩ := h
  obtain ⟨i, hi, rfl⟩ := List.mem_map.mp hd
  exact sectorData_ne_nil (Nat.lt_of_lt_of_le (List.mem_range.mp hi) hk)

theorem Whole.flatten_prefix {delivered : List (List UInt8)} (h : Whole fw delivered) :
    delivered.flatten <+: fw := by
  obtain ⟨k, -, rfl⟩ := h
  rw [firstSectors_flatten]
  exact List.take_prefix _ _

end Host
/-! ## The device as its component -/

namespace World

/-- The component in the place of the device. -/
def net (w : World) : Net := ⟨w.host, w.dev.comp, w.flight ++ w.dev.due, w.delivered⟩

variable {w w' : World} {d d' : Device} {l : NetLabel}

theorem ble_step {e : BleEvent} (h : w.ble e = some d) :
    w.dev.pump.pc ≠ .halted ∧ w.dev.bleStep e = some d := by
  unfold ble at h
  split at h
  · cases h
  next hpc => exact ⟨hpc, h⟩

/-- A packet at the device is a packet at its component. -/
theorem handle_net {pkt : List UInt8} (h : w.handle pkt = some w') :
    w'.net = w.net.handle pkt ∧ w'.host = w.host ∧ w.dev.pump.pc ≠ .halted ∧
      w.dev.bleStep (.packet pkt) = some w'.dev := by
  obtain ⟨d, hd, rfl⟩ := Option.map_eq_some_iff.mp h
  obtain ⟨hrun, hst⟩ := ble_step hd
  refine ⟨?_, rfl, hrun, hst⟩
  obtain ⟨hcomp, hsent⟩ := Device.packet_sent hst
  have hdue : w.dev.due = [] := by
    cases Device.bleStep_act (B := .otaSlots) hst with
    | reply hn | sectorEnd hn => rw [Device.due, hn]
  rw [net, hcomp, List.append_assoc, hsent]
  cases ho : (recvFwWrite pkt w.dev.comp).2 with
  | reply | sectorEnd => simp [net, Net.handle, ho, hdue, PacketOut.delivered]

/-- The write of a packet at the device is the write at its component. -/
theorem writePacket_net {s : SendSector} {pkt : List UInt8} {rest : List (List UInt8)}
    {link : Host.Link} (h : w.writePacket fw s pkt rest link = some w') :
    w.net.writePacket fw s pkt rest link = w'.net := by
  cases link with
  | up =>
    obtain ⟨w₁, h₁, rfl⟩ := Option.map_eq_some_iff.mp h
    rw [Net.writePacket, ← (handle_net h₁).1]
    rfl
  | down reached timeout =>
    obtain ⟨w₁, h₁, rfl⟩ := Option.map_eq_some_iff.mp h
    cases reached with
    | true =>
      obtain ⟨hnet, hhost, -⟩ := handle_net h₁
      simp only [Net.writePacket, if_true, ← hnet]
      simp only [net, hhost]
    | false =>
      cases h₁
      rfl

/-- **A step of the host** at the device is its step at the component. -/
theorem hostStep_net (h : w.hostStep fw mtuSize l = some w') :
    Net.step fw mtuSize l w.net = some w'.net := by
  unfold hostStep at h
  split at h
  next link =>
    split at h
    next s hpc =>
      split at h
      · cases h
      next pkt rest hr =>
        show Net.step fw mtuSize (.write link) w.net = _
        simp only [Net.step, show w.net.host.pc = .sending s from hpc, hr]
        rw [writePacket_net h]
    · cases h
  next l hl =>
    obtain ⟨n, hn, rfl⟩ := Option.map_eq_some_iff.mp h
    obtain ⟨hst, hcomp, hdel⟩ := Host.step_due w.dev.due (fun link he => hl link he) hn
    refine hst.trans ?_
    simp only [net, hcomp, hdel]

/-- **A step of the NimBLE host task** is none at the component. -/
theorem nimbleStep_net {n : Nat} (h : w.nimbleStep n = some w') :
    w'.net = w.net ∧ w'.host = w.host ∧ w'.delivered = w.delivered ∧ w.dev.pump.pc ≠ .halted ∧
      w.dev.nimbleStep n = some w'.dev := by
  unfold nimbleStep at h
  split at h
  · cases h
  next hrun =>
  obtain ⟨d, hst, rfl⟩ := Option.map_eq_some_iff.mp h
  obtain ⟨hsent, hcomp⟩ := Device.nimbleStep_sent hst
  refine ⟨?_, rfl, rfl, hrun, hst⟩
  rw [net, hcomp, List.append_assoc, hsent, net]

/-- **A step of the pump** is none at the component. -/
theorem pumpStep_net {n : Nat} {idf : Idf} (h : w.dev.pumpStep B n idf = some d) :
    net { w with dev := d } = w.net := by
  obtain ⟨-, hcomp, hn⟩ := Device.pumpStep_sent (B := B) h
  simp only [net, Device.due, hcomp, hn]

end World

end BleOta
