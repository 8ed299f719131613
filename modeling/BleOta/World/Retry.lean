import BleOta.Device.Settles
import BleOta.World.Liveness

/-!
# After a transfer that was left, the next one can be flashed

`recovers`: whatever clients have done to the device, and whatever the IDF has answered, after a
Stop or the end of the connection the pump gives up its session and comes to a state from which
every lossless transfer of a file that fits is flashed, if its Stop comes late enough (`Eager`).

* `startOf`: the Start of a new transfer. `Ready`: a client that subscribes can send it, and what
  follows is `leads_flashed`.
-/

namespace BleOta

open Host (startPayload)

variable {B : Board} {fw : List UInt8} {mtuSize : Nat} {t : Partition} {d : Device}

namespace World

/-- The Start of `send_start` for `fw` reaches the device. -/
def startOf (fw : List UInt8) (d : Device) : Option World :=
  (d.bleStep (.command (startPayload fw.length) true)).map fun d => ⟨⟨0, -1, .loop⟩, d, [], []⟩

/-- A client that subscribes can start the transfer of a file that fits, and every lossless run of
it is flashed. -/
def Ready (B : Board) (d : Device) : Prop :=
  ∀ n fw mtuSize t, n.recvFw = true → Fits B fw mtuSize t →
    ∃ d' w, d.bleStep (.subscribe n) = some d' ∧ startOf fw d' = some w ∧
      (system B fw mtuSize).Leads Eager (Flashed fw) w

/-- The Start of a device that waits without a session. -/
theorem live_startOf (hr : (Device.system B).Reach d) (hidle : d.nimble = .idle) (hrest : d.Rested)
    (hsub : d.comp.otaNotification.recvFw = true) (hx : Fits B fw mtuSize t) :
    ∃ w, startOf fw d = some w ∧ Live B fw mtuSize w := by
  have hcmd : bleOtaStartWriteChr (startPayload fw.length) true d.comp = _ := if_pos ⟨rfl, rfl⟩
  obtain ⟨d₁, hd₁⟩ : ∃ d₁, d.bleStep (.command (startPayload fw.length) true) = some d₁ := by
    unfold Device.bleStep
    rw [if_neg (not_not_intro hidle)]
    dsimp only
    rw [hcmd]
    exact ⟨_, rfl⟩
  have hrun : d.pump.pc ≠ .halted := by
    rw [hrest.pc]
    rintro ⟨⟩
  have hw : d₁.Rested ∧ d₁.comp.otaNotification = d.comp.otaNotification := by
    cases Device.bleStep_act (B := B) hd₁ with
    | start _ ho =>
      have hntf := Device.bleOtaStartWriteChr_notification (startPayload fw.length) true d.comp
      rw [ho] at hntf
      exact ⟨⟨hrest.pc, hrest.epoch, hrest.ring, hrest.next⟩, hntf⟩
    | stop _ ho | otherCommand _ ho =>
      rw [ho] at hcmd
      cases hcmd
  refine ⟨⟨⟨0, -1, .loop⟩, d₁, [], []⟩, by rw [startOf, hd₁]; rfl, ?_⟩
  exact .init hx ⟨d, d₁, hr, hrun, hd₁, rfl⟩ hw.1 (by rw [hw.2, hsub])

theorem ready_of_rested (hr : (Device.system B).Reach d) (hidle : d.nimble = .idle)
    (hrest : d.Rested) : Ready B d := by
  intro n fw mtuSize t hn hx
  have hsub : d.bleStep (.subscribe n) =
      some { d with comp := { d.comp with otaNotification := n } } := by
    unfold Device.bleStep
    rw [if_neg (not_not_intro hidle)]
  have hr' : (Device.system B).Reach { d with comp := { d.comp with otaNotification := n } } :=
    .step (.ble (.subscribe n)) hr hsub
  obtain ⟨w, hw, hlive⟩ := live_startOf hr' hidle
    ⟨hrest.pc, hrest.epoch, hrest.ring, hrest.next⟩ hn hx
  exact ⟨_, w, hsub, hw, hlive.leads hx⟩

/-- **The device recovers from every transfer that was left**: from every reachable state after a
Stop or the end of a connection, while nothing comes from the BLE side, the pump comes to the
restart, or to wait without a session at an empty ring, in a state from which every lossless
transfer of a file that fits is flashed, unless the epochs of the sink have run out. -/
theorem recovers (hr : (Device.system B).Reach d) (hoff : d.armed = false)
    (hidle : d.nimble = .idle) :
    (Device.system B).Leads Device.Alone (fun d => d.pump.pc = .halted ∨
      (d.pump.pc = .receive ∧ d.pump.epoch = 0 ∧ d.ring.queue = []) ∧
        (d.sink.sink.nextEpoch = 0 ∨ Ready B d)) d := by
  refine (Device.settles hr hoff hidle).imp
    (I := fun d => (Device.system B).Reach d ∧ d.nimble = .idle) ?_ ?_ ⟨hr, hidle⟩
  · rintro l s s' ⟨hr, hidle⟩ hc hst
    cases l with
    | ble | nimble => exact hc.elim
    | pump => exact ⟨.step _ hr hst, (Device.pump_keeps hst).2.trans hidle⟩
  · rintro s ⟨hr, hidle⟩ (hpc | ⟨hpc, hep, hq⟩)
    · exact .inl hpc
    · by_cases hnext : s.sink.sink.nextEpoch = 0
      · exact .inr ⟨⟨hpc, hep, hq⟩, .inl hnext⟩
      · exact .inr ⟨⟨hpc, hep, hq⟩, .inr (ready_of_rested hr hidle ⟨hpc, hep, hq, hnext⟩)⟩

/-- A transfer of eight bytes of which two have come, in the session that the pump has opened. -/
def leftAtTwo : List DevLabel :=
  Device.wholeStart 8 ++ Device.acceptedSector 1 2 ++ List.replicate 8 (.pump 4095 .allOk) ++
    [.ble .disconnect]

theorem recovers_twoBytes :
    (Device.system .otaSlots).Leads Device.Alone (fun d => d.pump.pc = .halted ∨
      (d.pump.pc = .receive ∧ d.pump.epoch = 0 ∧ d.ring.queue = []) ∧
        (d.sink.sink.nextEpoch = 0 ∨ Ready .otaSlots d)) (Device.after leftAtTwo) :=
  recovers (Lib.Lts.run_reach (.init rfl) _) rfl rfl

end World

end BleOta
