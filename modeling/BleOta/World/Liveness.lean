import BleOta.Device.Drains
import BleOta.Host.Lossless
import BleOta.World.Image

/-!
# Every lossless transfer ends in the flash

`leads_flashed`: from the Start on, to a client that has subscribed and a device that waits without
a session, the host, the NimBLE host task and the pump can take their steps in any order; while
nothing is lost, the IDF does not fail and the Stop and the end of the connection come late enough,
the file is flashed and the device restarts.

* `Eager`: the steps of such a run. A send into the ring waits until there is room; the Stop and the
  end of the connection come after the loop, when the pump has read what they clear (`StopCond`). A
  timeout of the pump at the empty ring is no step of it, nor a repeated Stop or disconnect.
* `Live`: the invariant. `Live.next`: until the file is flashed there is such a step.
* `left`: a measure that every such step lowers.
-/

namespace BleOta

open Lib (Ring)
open Host (NetLabel HostSt totalSectors sectorData)

variable {B : Board} {fw : List UInt8} {mtuSize : Nat} {t : Partition}

/-! ## The pump after the Start of a rested device -/

/-- The steps that are left to the NimBLE host task. -/
def NimblePc.rank : NimblePc → Nat
  | .startArm => 5
  | .startUnblock | .startReturn _ => 3
  | .startFlush | .recvCheck .. => 2
  | .startInvalidate | .recvSend .. | .stopDisarm => 1
  | .idle => 0

/-- What a Stop and a disconnect may still clear. -/
def Device.flags (d : Device) : Nat := 2 * d.comp.startOta.toNat + d.armed.toNat

theorem NimblePc.Later.not_starting {pc : NimblePc} (h : pc.Later) : ¬pc.Starting := by
  cases pc <;> first | exact id | exact h.elim

namespace Device

variable {d d' : Device} {n : Nat} {idf : Idf} {k L : Nat}

/-- The pump waits without a session, the ring is empty, and the epochs have not wrapped. -/
structure Rested (d : Device) : Prop where
  pc : d.pump.pc = .receive
  epoch : d.pump.epoch = 0
  ring : d.ring.queue = []
  next : d.sink.sink.nextEpoch ≠ 0

/-- A rested device in the Start callback. -/
structure Opening (d : Device) : Prop where
  rested : d.Rested
  at_ : match d.nimble with
    | .startArm | .startUnblock => True
    | .startFlush | .startInvalidate => d.openBlocked = false
    | _ => False

/-- The pump waits for the first item of a transfer, or has taken bytes of it from the ring. -/
def Taking (d : Device) : Prop :=
  (d.pump.pc = .receive ∧ d.pump.epoch = 0) ∨
    d.ring.queue.length < (acceptedAt d.clock d.log).length

theorem Rested.atRest (h : d.Rested) : d.AtRest := .inl ⟨h.pc, h.ring⟩

/-- Only the NimBLE host task that is idle has no step. -/
theorem nimbleStep_isSome (n : Nat) (h : d.nimble ≠ .idle) : ∃ d', d.nimbleStep n = some d' := by
  unfold nimbleStep
  split
  next hn => exact absurd hn h
  all_goals first
    | exact ⟨_, rfl⟩
    | (split <;> exact ⟨_, rfl⟩)

/-- A packet does not touch the ring and the pump. -/
theorem packet_frame {om : List UInt8} (hst : d.bleStep (.packet om) = some d') :
    d'.ring = d.ring ∧ d'.pump = d.pump ∧ d'.clock = d.clock ∧ d'.flags = d.flags := by
  have hstart := (recvFwWrite_frame om d.comp).2.1
  cases bleStep_act (B := .otaSlots) hst with
  | reply _ ho | sectorEnd _ ho =>
    rw [ho] at hstart
    simp only at hstart
    exact ⟨rfl, rfl, rfl, congrArg (2 * ·.toNat + d.armed.toNat) hstart⟩

/-- Neither does a Stop. -/
theorem stop_frame (hst : d.bleStep (.command [0x02, 0x00] true) = some d') :
    d'.ring = d.ring ∧ d'.pump = d.pump ∧ d'.clock = d.clock ∧ d'.armed = d.armed ∧
      d'.nimble = .stopDisarm ∧ d'.comp.startOta = false ∧
      d'.comp.otaNotification = d.comp.otaNotification := by
  have hcmd : (bleOtaStartWriteChr [0x02, 0x00] true d.comp).2 =
      .stopped (cmdAck 0x03 0x00 0x02 0x00 0x00 0x00) := rfl
  have hntf := bleOtaStartWriteChr_notification [0x02, 0x00] true d.comp
  have hstart : (bleOtaStartWriteChr [0x02, 0x00] true d.comp).1.startOta = false := rfl
  cases bleStep_act (B := .otaSlots) hst with
  | stop _ ho =>
    rw [ho] at hntf hstart
    exact ⟨rfl, rfl, rfl, rfl, rfl, hstart, hntf⟩
  | start _ ho | otherCommand _ ho =>
    rw [ho] at hcmd
    cases hcmd

theorem pump_flags (hst : (system B).step (.pump n idf) d = some d') : d'.flags = d.flags := by
  cases step_act hst <;> rfl

/-- The pump puts nothing into the ring. -/
theorem pumpStep_queue (hst : (system B).step (.pump n idf) d = some d') :
    d'.ring.queue.length ≤ d.ring.queue.length := by
  cases step_act hst with
  | @take n idf item ring hpc hrc =>
    obtain ⟨-, hq, -⟩ := Ring.receive_eq_some hrc
    show ring.queue.length ≤ _
    rw [hq, List.length_append]
    exact Nat.le_add_left ..
  | timesOut | timeoutAbort | timeoutBack | emptyItem | lazyOpen | toWrite | unarmed | giveBack
    | zero | length | zeroBlock | failBlock | wroteOk | wroteFail | calls | sections =>
    exact Nat.le_refl _

/-- Before the first item of the transfer all its bytes are in the ring. -/
theorem Transfer.waiting (ht : Transfer True k L d) (hpc : d.pump.pc = .receive)
    (he : d.pump.epoch = 0) : acceptedAt k d.log = d.ring.queue := by
  cases ht.phase with
  | old ho => exact ho.acc
  | fresh hf =>
    have hat := hf.at_
    rw [hpc] at hat
    exact hat.elim
  | opened _ e ho => exact absurd (ho.current.epoch.symm.trans he) ho.nonzero
  | full _ _ hf =>
    have hat := hf.at_
    rw [hpc] at hat
    exact absurd trivial hat.1

/-- A step of the pump that is not at rest. -/
theorem Taking.pump (h : d.Taking) (ht : Transfer True d.clock L d) (hr : (system B).Reach d)
    (hrest : ¬d.AtRest) (hst : (system B).step (.pump n idf) d = some d') : d'.Taking := by
  obtain ⟨hclock, -, hacc, -⟩ := pumpStep_frame (k := d.clock) hst
  right
  rw [hclock, hacc]
  rcases h with ⟨hpc, he⟩ | hlt
  · rw [ht.waiting hpc he]
    cases step_act hst with
    | @take n idf item ring _ hrc =>
      obtain ⟨-, hq, hne, -⟩ := Ring.receive_eq_some hrc
      have hpos := List.length_pos_of_ne_nil hne
      show ring.queue.length < _
      rw [hq, List.length_append]
      omega
    | timesOut _ hrc =>
      have hn : ∀ item, d.nimble ≠ .startReturn item := fun item hn => by
        have := ht.nimble
        rw [hn] at this
        exact this.elim
      refine absurd (.inl ⟨hpc, ?_⟩) hrest
      exact (Ring.receive_eq_none hrc).resolve_left
        fun hx => hx ((DevOk.reach hr).held_none hpc hn)
    | timeoutAbort hx | timeoutBack hx | emptyItem hx | lazyOpen hx | toWrite hx | unarmed hx
      | giveBack hx | zero hx | length hx | zeroBlock hx | failBlock hx | wroteOk hx
      | wroteFail hx | sections hx =>
      rw [hpc] at hx
      cases hx
    | calls hx =>
      rw [hpc] at hx
      cases hx
  · exact Nat.lt_of_le_of_lt (pumpStep_queue hst) hlt

/-- A step of the NimBLE host task with the entries `es`. -/
theorem Taking.emits (es : List DevEv) (h : d.Taking) (hp : d'.pump = d.pump)
    (hclock : d'.clock = d.clock) (hlog : d'.log = (d.emit es).log)
    (hq : d'.ring.queue.length = d.ring.queue.length + (es.flatMap DevEv.accepts).length) :
    d'.Taking := by
  unfold Taking
  rw [hp, hclock, hlog, hq, acceptedAt_emit, if_pos rfl, List.length_append]
  exact h.imp_right fun hlt => Nat.add_lt_add_right hlt _

/-- After the restart the transfer is complete. -/
theorem Taking.full (h : d.Taking) (ht : Transfer True d.clock L d) (hpc : d.pump.pc = .halted) :
    ∃ hd e, Full True d.clock L hd e d := by
  have hlt := h.resolve_left fun hx => by
    rw [hpc] at hx
    cases hx.1
  cases ht.phase with
  | old ho =>
    rw [ho.acc] at hlt
    exact absurd hlt (Nat.lt_irrefl _)
  | fresh hf =>
    have hat := hf.at_
    rw [hpc] at hat
    exact hat.elim
  | opened _ _ ho =>
    have hat := ho.at_
    rw [hpc] at hat
    exact hat.elim
  | full hd e hf => exact ⟨hd, e, hf⟩

end Device

namespace World

open Device (Transfer Taking acceptedAt CleanStart)

variable {w w' : World} {l : WorldLabel}

/-! ## The steps and the invariant -/

/-- A step of a transfer without losses. The Stop and the disconnect come once, and late enough. -/
def Eager (w : World) : WorldLabel → Prop
  | .host l => l.Lossless
  | .nimble n => Smooth w (.nimble n)
  | .pump n idf => Smooth w (.pump n idf) ∧ ¬w.dev.AtRest
  | .stop => Smooth w .stop ∧ w.dev.comp.startOta = true
  | .disconnect => Smooth w .disconnect ∧ w.dev.armed = true

/-- The host has ended with `transfer_ok`, the device has restarted, and the file is in the session
that it has finished and activated. -/
structure Flashed (fw : List UInt8) (w : World) : Prop where
  host : w.host.pc = .finished true
  pump : w.dev.pump.pc = .halted
  image : ∃ h e, (∃ t, (w.dev.clock, .sink (.ev (.otaBegin t fw.length h espOk))) ∈ w.dev.log) ∧
    (Device.writtenOn h w.dev.log).map (·.byte) = fw ∧
    Device.Traced fw.length h e [.finish e, .activate e true] (Device.sinkLog w.dev.log)

/-- After the Start callback. -/
structure Working (fw : List UInt8) (w : World) : Prop where
  loading : Loading fw w
  taking : w.dev.Taking
  small : w.dev.nimble.sector.length ≤ Host.sectorSize
  stopped : w.dev.nimble = .stopDisarm → w.host.pc = .finished true

/-- The invariant (module doc). -/
structure Live (B : Board) (fw : List UInt8) (mtuSize : Nat) (w : World) : Prop where
  ok : Ok B fw mtuSize w
  alive : Host.Alive fw mtuSize w.net
  phase : w.dev.Opening ∨ Working fw w

/-- What is left to do. -/
def left (fw : List UInt8) (mtuSize : Nat) (w : World) : Nat :=
  3 * w.host.rank fw mtuSize + 20 * (fw.length - w.delivered.flatten.length) +
    20 * w.dev.nimble.sector.length + w.dev.nimble.rank + w.dev.flags + w.dev.work

theorem Ok.loading (h : Ok B fw mtuSize w) (hn : ¬w.dev.nimble.Starting) : Loading fw w :=
  h.phase.resolve_left fun hb => hn hb.1

/-- What is delivered is no longer than a sector. -/
theorem whole_le {delivered : List (List UInt8)} (h : Host.Whole fw delivered) {data : List UInt8}
    (hd : data ∈ delivered) : data.length ≤ Host.sectorSize := by
  obtain ⟨k, -, rfl⟩ := h
  obtain ⟨i, -, rfl⟩ := List.mem_map.mp hd
  exact Host.sectorData_length_le

/-! ## The steps of the host -/

/-- A packet at the device. -/
theorem handle_frame {pkt : List UInt8} {w₁ : World} (h : w.handle pkt = some w₁) :
    w₁.dev.ring = w.dev.ring ∧ w₁.dev.pump = w.dev.pump ∧ w₁.dev.clock = w.dev.clock ∧
      w₁.dev.flags = w.dev.flags ∧
      acceptedAt w.dev.clock w₁.dev.log = acceptedAt w.dev.clock w.dev.log ∧ w.dev.nimble = .idle ∧
      ((w₁.dev.nimble = .idle ∧ w₁.delivered = w.delivered) ∨
        ∃ sector data frame, w₁.dev.nimble = .recvCheck sector data frame ∧
          w₁.delivered = w.delivered ++ [data]) := by
  have hble := (handle_net h).2.2.2
  have hdel : w₁.delivered = w.delivered ++ (recvFwWrite pkt w.dev.comp).2.delivered := by
    obtain ⟨d, -, rfl⟩ := Option.map_eq_some_iff.mp h
    rfl
  obtain ⟨hidle, hacc, hout⟩ := packet_cases w.dev.clock hble
  obtain ⟨hring, hpump, hclock, hflags⟩ := Device.packet_frame hble
  refine ⟨hring, hpump, hclock, hflags, hacc, hidle, ?_⟩
  rcases hout with ⟨hn, hd⟩ | ⟨sector, data, frame, hn, hd⟩
  · exact .inl ⟨hn, by rw [hdel, hd, List.append_nil]⟩
  · exact .inr ⟨sector, data, frame, hn, by rw [hdel, hd]⟩

theorem Live.host {nl : NetLabel} (hx : Fits B fw mtuSize t) (h : Live B fw mtuSize w)
    (hl : nl.Lossless) (hst : w.hostStep fw mtuSize nl = some w') :
    Live B fw mtuSize w' ∧ left fw mtuSize w' < left fw mtuSize w := by
  obtain ⟨halive, hrank⟩ := h.alive.step hx.mtu hx.total h.ok.inv hl (hostStep_net hst)
  have hrank : w'.host.rank fw mtuSize < w.host.rank fw mtuSize := hrank
  have hok := h.ok.host hx hst
  rcases hostStep_cases hst with ⟨hd, hdel⟩ | ⟨s, pkt, rest, w₁, hpc, hr, hw, hd, hdel⟩
  · refine ⟨⟨hok, halive, ?_⟩, by simp only [left, hd, hdel]; omega⟩
    rcases h.phase with ho | ⟨⟨h1, h2, h3⟩, h4, h5, h6⟩
    · exact .inl (hd ▸ ho)
    · refine .inr ⟨⟨hd ▸ h1, hd ▸ h2, by rw [hd, hdel]; exact h3⟩, hd ▸ h4, hd ▸ h5, fun hn => ?_⟩
      -- The Stop comes when nothing is left for the host to do.
      have hzero : w.host.rank fw mtuSize = 0 := by rw [Host.HostSt.rank, h6 (hd ▸ hn)]
      omega
  · obtain ⟨hring, hpump, hclock, hflags, hacc, hidle, hout⟩ := handle_frame hw
    obtain ⟨-, -, -, hload⟩ := h.ok.handle hx hpc hr hw
    have hwork : Working fw w := h.phase.resolve_left fun ho => by
      have hat := ho.at_
      rw [hidle] at hat
      exact hat.elim
    have htaking : w'.dev.Taking := by
      rw [hd, Taking, hring, hpump, hclock, hacc]
      exact hwork.taking
    have hload' : Loading fw w' :=
      ⟨hd ▸ hload.transfer, hd ▸ hload.unblocked, by rw [hd, hdel]; exact hload.bytes⟩
    rcases hout with ⟨hn, hdel₁⟩ | ⟨sector, data, frame, hn, hdel₁⟩
    · refine ⟨⟨hok, halive, .inr ⟨hload', htaking, ?_, ?_⟩⟩, ?_⟩
      · rw [hd, hn]
        exact Nat.zero_le _
      · rw [hd, hn]
        rintro ⟨⟩
      · simp only [left, Device.work, hd, hn, hidle, hdel, hdel₁, hring, hpump, hflags]
        omega
    · have hdel' : w'.delivered = w.delivered ++ [data] := hdel.trans hdel₁
      refine ⟨⟨hok, halive, .inr ⟨hload', htaking, ?_, ?_⟩⟩, ?_⟩
      · rw [hd, hn]
        exact whole_le hok.whole (by simp [hdel'])
      · rw [hd, hn]
        rintro ⟨⟩
      · have hle := hok.whole.flatten_prefix.length_le
        rw [hdel', List.flatten_append, List.length_append] at hle
        simp only [left, Device.work, hd, hn, hidle, hdel', hring, hpump, hflags, NimblePc.rank,
          NimblePc.sector_recvCheck, NimblePc.sector_idle, List.flatten_append, List.length_append,
          List.flatten_singleton, List.length_nil] at hle ⊢
        omega

/-! ## The steps of the device -/

/-- A step of the pump. -/
theorem Live.pump {n : Nat} {idf : Idf} (hx : Fits B fw mtuSize t) (h : Live B fw mtuSize w)
    (hc : Smooth w (.pump n idf)) (hrest : ¬w.dev.AtRest) {d : Device}
    (hst : w.dev.pumpStep B n idf = some d) :
    Live B fw mtuSize { w with dev := d } ∧
      left fw mtuSize { w with dev := d } < left fw mtuSize w := by
  have hstep : (Device.system B).step (.pump n idf) w.dev = some d := hst
  have hok := h.ok.pump hx hc hst
  have hwork : Working fw w := h.phase.resolve_left fun ho => hrest ho.rested.atRest
  obtain ⟨hlt, hn⟩ := Device.pump_work h.ok.reach (fun item hn => by
    have := hwork.loading.transfer.nimble
    rw [hn] at this
    exact this.elim) hrest hstep
  have halive : Host.Alive fw mtuSize (net { w with dev := d }) := by
    rw [pumpStep_net hst]
    exact h.alive
  have hload : Loading fw { w with dev := d } := hok.loading fun hs => by
    have hs : d.nimble.Starting := hs
    rw [hn] at hs
    exact hwork.loading.transfer.nimble.not_starting hs
  refine ⟨⟨hok, halive, .inr ⟨hload, ?_, ?_, ?_⟩⟩, ?_⟩
  · exact hwork.taking.pump hwork.loading.transfer h.ok.reach hrest hstep
  · show d.nimble.sector.length ≤ _
    rw [hn]
    exact hwork.small
  · show d.nimble = _ → _
    rw [hn]
    exact hwork.stopped
  · simp only [left, hn, Device.pump_flags hstep]
    omega

/-- A step of the Start callback of a rested device. -/
theorem Live.opening {n : Nat} (hx : Fits B fw mtuSize t) (h : Live B fw mtuSize w)
    (ho : w.dev.Opening) (hc : Smooth w (.nimble n)) (hst : w.nimbleStep n = some w') :
    Live B fw mtuSize w' ∧ w'.dev.nimble.sector = w.dev.nimble.sector ∧
      w'.dev.nimble.rank + w'.dev.flags < w.dev.nimble.rank + w.dev.flags ∧
      w'.dev.work = w.dev.work := by
  have hok := h.ok.nimble hx hc hst
  obtain ⟨hnet, hhost, hdel, hrun, hn⟩ := nimbleStep_net hst
  have halive : Host.Alive fw mtuSize w'.net := hnet ▸ h.alive
  have hat := ho.at_
  obtain ⟨hpc, hep, hring, hnext⟩ := ho.rested
  generalize hd : w'.dev = d at hn
  cases Device.nimbleStep_act (B := B) hn with
  | startArm hs =>
    refine ⟨⟨hok, halive, .inl ?_⟩, ?_⟩
    · rw [hd]
      exact ⟨⟨hpc, hep, hring, hnext⟩, trivial⟩
    · simp [hs, NimblePc.sector, NimblePc.rank, Device.work, Device.flags]
      omega
  | startUnblock hs =>
    refine ⟨⟨hok, halive, .inl ?_⟩, ?_⟩
    · rw [hd]
      exact ⟨⟨hpc, hep, hring, hnext⟩, rfl⟩
    · simp [hs, NimblePc.sector, NimblePc.rank, Device.work, Device.flags]
  | flushTake _ hrc =>
    obtain ⟨-, hq, hne, -⟩ := Ring.receive_eq_some hrc
    rw [hring] at hq
    exact absurd (List.append_eq_nil_iff.mp hq.symm).1 hne
  | flushDone hs =>
    rw [hs] at hat
    refine ⟨⟨hok, halive, .inl ?_⟩, ?_⟩
    · rw [hd]
      exact ⟨⟨hpc, hep, hring, hnext⟩, hat⟩
    · simp [hs, NimblePc.sector, NimblePc.rank, Device.work, Device.flags]
  | startInvalidate hs =>
    refine ⟨⟨hok, halive, .inr ⟨hok.loading (by rw [hd]; exact id), ?_, ?_, ?_⟩⟩, ?_⟩
    · rw [hd]
      exact .inl ⟨hpc, hep⟩
    · rw [hd]
      exact Nat.zero_le _
    · rw [hd]
      rintro ⟨⟩
    · simp [hs, NimblePc.sector, NimblePc.rank, Device.work, Device.flags]
  | flushReturn hs | recvPass hs | recvRefuse hs | sendOk hs | sendFull hs | stopDisarm hs =>
    rw [hs] at hat
    exact hat.elim

/-- A step of the firmware callback, or the end of the Stop. -/
theorem Live.later {n : Nat} (hx : Fits B fw mtuSize t) (h : Live B fw mtuSize w)
    (hw : Working fw w) (hc : Smooth w (.nimble n)) (hst : w.nimbleStep n = some w') :
    Live B fw mtuSize w' ∧
      20 * w'.dev.nimble.sector.length + w'.dev.nimble.rank + w'.dev.flags + w'.dev.work <
        20 * w.dev.nimble.sector.length + w.dev.nimble.rank + w.dev.flags + w.dev.work := by
  have hok := h.ok.nimble hx hc hst
  obtain ⟨hnet, hhost, hdel, hrun, hn⟩ := nimbleStep_net hst
  have halive : Host.Alive fw mtuSize w'.net := hnet ▸ h.alive
  have hlater := hw.loading.transfer.nimble
  obtain ⟨-, htaking, hsmall, -⟩ := hw
  generalize hd : w'.dev = d at hn
  cases Device.nimbleStep_act (B := B) hn with
  | recvPass hs =>
    rw [hs] at hsmall
    refine ⟨⟨hok, halive, .inr ⟨hok.loading (by rw [hd]; exact id), ?_, ?_, ?_⟩⟩, ?_⟩
    · rw [hd]
      exact htaking
    · rw [hd]
      exact hsmall
    · rw [hd]
      rintro ⟨⟩
    · simp [hs, NimblePc.rank, Device.work, Device.flags]
  | @recvRefuse n sector data frame hs | @sendFull n sector data frame hs =>
    refine ⟨⟨hok, halive, .inr ⟨hok.loading (by rw [hd]; exact id), ?_, ?_, ?_⟩⟩, ?_⟩
    · rw [hd]
      refine htaking.emits (.refused data :: w.dev.notified .recvFw frame sector) rfl rfl rfl ?_
      simp [DevEv.accepts]
    · rw [hd]
      exact Nat.zero_le _
    · rw [hd]
      rintro ⟨⟩
    · simp [hs, NimblePc.rank, Device.work, Device.flags]
  | @sendOk n sector data frame ring hs hsend =>
    obtain ⟨-, hq, -⟩ := Ring.send_eq_some hsend
    refine ⟨⟨hok, halive, .inr ⟨hok.loading (by rw [hd]; exact id), ?_, ?_, ?_⟩⟩, ?_⟩
    · rw [hd]
      refine htaking.emits (.accepted (w.dev.cells data) ::
        w.dev.notified .recvFw frame sector) rfl rfl rfl ?_
      simp [DevEv.accepts, hq]
    · rw [hd]
      exact Nat.zero_le _
    · rw [hd]
      rintro ⟨⟩
    · simp [hs, NimblePc.rank, Device.work, Device.flags, hq, Device.cells]
      omega
  | stopDisarm hs =>
    refine ⟨⟨hok, halive, .inr ⟨hok.loading (by rw [hd]; exact id), ?_, ?_, ?_⟩⟩, ?_⟩
    · rw [hd]
      exact htaking
    · rw [hd]
      exact Nat.zero_le _
    · rw [hd]
      rintro ⟨⟩
    · simp [hs, NimblePc.sector, NimblePc.rank, Device.work, Device.flags]
      omega
  | startArm hs | startUnblock hs | flushTake hs | flushDone hs | flushReturn hs
    | startInvalidate hs =>
    rw [hs] at hlater
    exact hlater.elim

theorem Live.nimble {n : Nat} (hx : Fits B fw mtuSize t) (h : Live B fw mtuSize w)
    (hc : Smooth w (.nimble n)) (hst : w.nimbleStep n = some w') :
    Live B fw mtuSize w' ∧ left fw mtuSize w' < left fw mtuSize w := by
  obtain ⟨-, hhost, hdel, -⟩ := nimbleStep_net hst
  rcases h.phase with ho | hw
  · obtain ⟨hlive, hsec, hrank, hwork⟩ := h.opening hx ho hc hst
    refine ⟨hlive, ?_⟩
    simp only [left, hhost, hdel, hsec, hwork]
    omega
  · obtain ⟨hlive, hlt⟩ := h.later hx hw hc hst
    refine ⟨hlive, ?_⟩
    simp only [left, hhost, hdel]
    omega

/-- The Stop, or the end of the connection, after the loop. -/
theorem Live.ends {d : Device} (h : Live B fw mtuSize w) (hok : Ok B fw mtuSize { w with dev := d })
    (hfin : w.host.pc = .finished true) (hidle : w.dev.nimble = .idle)
    (hn : d.nimble = .idle ∨ d.nimble = .stopDisarm)
    (hframe : d.ring = w.dev.ring ∧ d.pump = w.dev.pump ∧ d.clock = w.dev.clock)
    (hacc : acceptedAt w.dev.clock d.log = acceptedAt w.dev.clock w.dev.log)
    (hsub : d.comp.otaNotification = w.dev.comp.otaNotification)
    (hflags : d.nimble.rank + d.flags < w.dev.flags) :
    Live B fw mtuSize { w with dev := d } ∧
      left fw mtuSize { w with dev := d } < left fw mtuSize w := by
  obtain ⟨hring, hpump, hclock⟩ := hframe
  have hsector : d.nimble.sector = [] := by rcases hn with hn | hn <;> rw [hn] <;> rfl
  have hwork : Working fw w := h.phase.resolve_left fun ho => by
    have hat := ho.at_
    rw [hidle] at hat
    exact hat.elim
  have hload : Loading fw { w with dev := d } := hok.loading fun hs => by
    have hs : d.nimble.Starting := hs
    rcases hn with hn | hn <;> rw [hn] at hs <;> exact hs.elim
  refine ⟨⟨hok, ⟨?_, ?_⟩, .inr ⟨hload, ?_, ?_, fun _ => hfin⟩⟩, ?_⟩
  · show d.comp.otaNotification.recvFw = true
    rw [hsub]
    exact h.alive.subscribed
  · have hhost := h.alive.host
    have hdue : d.due = w.dev.due := by
      rw [Device.due, Device.due, hidle]
      rcases hn with hn | hn <;> rw [hn]
    rw [show w.net.host.pc = .finished true from hfin] at hhost
    rw [show (net { w with dev := d }).host.pc = .finished true from hfin]
    refine ⟨rfl, ?_⟩
    show w.flight ++ d.due = []
    rw [hdue]
    exact hhost.2
  · show d.Taking
    rw [Taking, hring, hpump, hclock, hacc]
    exact hwork.taking
  · show d.nimble.sector.length ≤ _
    rw [hsector]
    exact Nat.zero_le _
  · have hsector₀ : w.dev.nimble.sector = [] := by rw [hidle]; rfl
    simp only [left, Device.work, hsector, hsector₀, hring, hpump]
    omega

theorem Live.stop (hx : Fits B fw mtuSize t) (h : Live B fw mtuSize w) (hc : Eager w .stop)
    (hst : (system B fw mtuSize).step .stop w = some w') :
    Live B fw mtuSize w' ∧ left fw mtuSize w' < left fw mtuSize w := by
  have hok := h.ok.step hx hc.1 hst
  simp only [system, step] at hst
  split at hst
  next hfin =>
    obtain ⟨d, hd, rfl⟩ := Option.map_eq_some_iff.mp hst
    obtain ⟨-, hble⟩ := ble_step hd
    obtain ⟨hidle, hacc, -, -⟩ := ble_quiet w.dev.clock (by rintro _ ⟨⟩) hble
    obtain ⟨hring, hpump, hclock, harm, hn, hstart, hsub⟩ := Device.stop_frame hble
    refine h.ends hok hfin hidle (.inr hn) ⟨hring, hpump, hclock⟩ hacc hsub ?_
    simp [Device.flags, NimblePc.rank, hn, harm, hstart, hc.2]
  · cases hst

theorem Live.disconnect (hx : Fits B fw mtuSize t) (h : Live B fw mtuSize w)
    (hc : Eager w .disconnect) (hst : (system B fw mtuSize).step .disconnect w = some w') :
    Live B fw mtuSize w' ∧ left fw mtuSize w' < left fw mtuSize w := by
  have hok := h.ok.step hx hc.1 hst
  have hfin := hc.1.1
  simp only [system, step, hfin] at hst
  obtain ⟨d, hd, rfl⟩ := Option.map_eq_some_iff.mp hst
  obtain ⟨-, hble⟩ := ble_step hd
  cases Device.bleStep_act (B := B) hble with
  | disconnect hidle =>
    refine h.ends hok hfin hidle (.inl hidle) ⟨rfl, rfl, rfl⟩ rfl rfl ?_
    simp [Device.flags, NimblePc.rank, hidle, hc.2]

/-- **Every eager step** keeps the invariant, and there is less left to do. -/
theorem Live.step (hx : Fits B fw mtuSize t) (h : Live B fw mtuSize w) (hc : Eager w l)
    (hst : (system B fw mtuSize).step l w = some w') :
    Live B fw mtuSize w' ∧ left fw mtuSize w' < left fw mtuSize w := by
  cases l with
  | host nl => exact h.host hx hc hst
  | nimble n => exact h.nimble hx hc hst
  | pump n idf =>
    obtain ⟨d, hd, rfl⟩ := Option.map_eq_some_iff.mp hst
    exact h.pump hx hc.1 hc.2 hd
  | stop => exact h.stop hx hc hst
  | disconnect => exact h.disconnect hx hc hst

/-! ## There is a step until the file is flashed -/

/-- Until the restart, a pump that is not at rest has a step. -/
theorem eager_pump (hrest : ¬w.dev.AtRest) :
    ∃ l w', Eager w l ∧ (system B fw mtuSize).step l w = some w' := by
  obtain ⟨d, hd⟩ := Device.pumpStep_isSome B 0 .allOk fun hx => hrest (.inr hx)
  exact ⟨.pump 0 .allOk, _, ⟨⟨rfl, rfl, rfl, rfl⟩, hrest⟩, Option.map_eq_some_iff.mpr ⟨d, hd, rfl⟩⟩

/-- Until the restart, a NimBLE host task that is not idle has a step. -/
theorem eager_nimble (hrun : w.dev.pump.pc ≠ .halted) (hidle : w.dev.nimble ≠ .idle)
    (hc : Smooth w (.nimble 0)) : ∃ l w', Eager w l ∧ (system B fw mtuSize).step l w = some w' := by
  obtain ⟨d, hd⟩ := Device.nimbleStep_isSome 0 hidle
  refine ⟨.nimble 0, { w with dev := d, flight := w.flight ++ w.dev.sent d }, hc, ?_⟩
  show w.nimbleStep 0 = _
  unfold nimbleStep
  rw [hd]
  split
  next hx => exact absurd hx hrun
  · rfl

/-- A step of the host that is no write. -/
theorem eager_host (nl : NetLabel) {n : Host.Net} (hl : nl.Lossless) (hw : ∀ link, nl ≠ .write link)
    (hst : Host.Net.step fw mtuSize nl ⟨w.host, w.dev.comp, w.flight, w.delivered⟩ = some n) :
    ∃ l w', Eager w l ∧ (system B fw mtuSize).step l w = some w' := by
  refine ⟨.host nl, { w with host := n.host, flight := n.flight }, hl, ?_⟩
  show w.hostStep fw mtuSize nl = _
  unfold hostStep
  split
  next link => exact absurd rfl (hw link)
  · rw [hst]
    rfl

/-- The next packet. -/
theorem eager_write {s : Host.SendSector} (hrun : w.dev.pump.pc ≠ .halted)
    (hidle : w.dev.nimble = .idle) (hpc : w.host.pc = .sending s) (hr : s.rest ≠ []) :
    ∃ l w', Eager w l ∧ (system B fw mtuSize).step l w = some w' := by
  obtain ⟨pkt, rest, hr⟩ := List.exists_cons_of_ne_nil hr
  have hble : ∃ d, w.ble (.packet pkt) = some d := by
    unfold ble
    split
    next hx => exact absurd hx hrun
    · unfold Device.bleStep
      rw [if_neg (fun hx => hx hidle)]
      dsimp only
      split <;> exact ⟨_, rfl⟩
  obtain ⟨d, hd⟩ := hble
  have hst : ∃ w', w.hostStep fw mtuSize (.write .up) = some w' := by
    simp only [hostStep, hpc, hr, writePacket, handle, hd, Option.map_some]
    exact ⟨_, rfl⟩
  obtain ⟨w', hst⟩ := hst
  exact ⟨.host (.write .up), w', trivial, hst⟩

/-- In the Start callback. -/
theorem next_opening (ho : w.dev.Opening) :
    ∃ l w', Eager w l ∧ (system B fw mtuSize).step l w = some w' := by
  have hat := ho.at_
  obtain ⟨hpc, hep, hring, hnext⟩ := ho.rested
  have hrun : w.dev.pump.pc ≠ .halted := by
    rw [hpc]
    rintro ⟨⟩
  refine eager_nimble hrun (fun hn => ?_) ⟨fun hn => ⟨⟨hring, ?_, ?_, hnext⟩, ?_, ?_, ?_⟩, ?_, ?_⟩
  · rw [hn] at hat
    exact hat
  · rw [Pump.MayOpen, hpc]
    exact id
  · exact fun hx => hx.1 hep
  · rw [hn] at hat
    exact hat
  · rw [hpc]
    rintro ⟨⟩
  · rw [hpc]
    rintro ⟨⟩
  · intro sector data frame hn
    rw [hn] at hat
    exact hat.elim
  · intro hn
    rw [hn] at hat
    exact hat.elim

/-- The device has restarted only after all bytes. -/
theorem Working.all (hw : Working fw w) (hpc : w.dev.pump.pc = .halted) :
    (acceptedAt w.dev.clock w.dev.log).length = fw.length := by
  obtain ⟨hd, e, hf⟩ := hw.taking.full hw.loading.transfer hpc
  exact hf.len

/-- In the firmware callback: its next step, or the pump makes room. -/
theorem Live.next_receiving (h : Live B fw mtuSize w) (hw : Working fw w)
    (hrecv : w.dev.nimble.Receiving) :
    ∃ l w', Eager w l ∧ (system B fw mtuSize).step l w = some w' := by
  have hne := h.ok.sector hrecv
  have hle := hw.loading.le h.ok.whole
  have hrun : w.dev.pump.pc ≠ .halted := fun hpc => by
    have := hw.all hpc
    have := List.length_pos_of_ne_nil hne
    omega
  have hbusy : w.dev.nimble ≠ .idle := fun hn => by
    rw [hn] at hrecv
    exact hrecv
  by_cases hroom : w.dev.ring.used + w.dev.nimble.sector.length ≤ ringbufSize
  · refine eager_nimble hrun hbusy ⟨fun hn => ?_, fun sector data frame hn => ?_, fun hn => ?_⟩
    · rw [hn] at hrecv
      exact hrecv.elim
    · rwa [hn] at hroom
    · rw [hn] at hrecv
      exact hrecv.elim
  · -- an empty ring has room for a sector
    refine eager_pump fun hrest => ?_
    obtain ⟨hpc, hq⟩ := hrest.resolve_right hrun
    have hheld := (Device.DevOk.reach h.ok.reach).held_none hpc fun item hn => by
      rw [hn] at hrecv
      exact hrecv
    have hsmall := hw.small
    simp only [Ring.used, hq, hheld, List.length_nil, Option.getD_none] at hroom
    unfold ringbufSize at hroom
    unfold Host.sectorSize at hsmall
    omega

/-- After a restart with the host at its end the file is flashed. -/
theorem Working.flashed (hw : Working fw w) (hok : Ok B fw mtuSize w)
    (hfin : w.host.pc = .finished true) (hsector : w.dev.nimble.sector = [])
    (hhalt : w.dev.pump.pc = .halted) : Flashed fw w := by
  obtain ⟨hd, e, hf⟩ := hw.taking.full hw.loading.transfer hhalt
  have hat := hf.at_
  rw [hhalt] at hat
  refine ⟨hfin, hhalt, hd, e, hf.begun, ?_, hat⟩
  rw [← hf.acc]
  exact hw.loading.all hok.inv hfin hsector

/-- The NimBLE host task is idle: a step of the host, or the pump ends the transfer. -/
theorem Live.next_idle (hx : Fits B fw mtuSize t) (h : Live B fw mtuSize w) (hw : Working fw w)
    (hidle : w.dev.nimble = .idle) (hdone : ¬Flashed fw w) :
    ∃ l w', Eager w l ∧ (system B fw mtuSize).step l w = some w' := by
  have hflight : w.net.flight = w.flight := by
    simp [net, Device.due, hidle]
  have hhost := h.alive.host
  cases hpc : w.host.pc with
  | loop =>
    by_cases hlt : w.host.current < totalSectors fw
    · exact eager_host .enter trivial (by rintro _ ⟨⟩)
        (by simp only [Host.Net.step, hpc, if_pos hlt]; rfl)
    · exact eager_host .enter trivial (by rintro _ ⟨⟩)
        (by simp only [Host.Net.step, hpc, if_neg hlt]; rfl)
  | raised =>
    rw [show w.net.host.pc = .raised from hpc] at hhost
    exact hhost.elim
  | finished ok =>
    rw [show w.net.host.pc = .finished ok from hpc] at hhost
    obtain ⟨rfl, -⟩ := hhost
    have himage := hw.loading.image hx h.ok
    refine eager_pump fun hrest => ?_
    rcases hrest with hq | hhalt
    · exact himage.busy hpc hidle hq
    · exact hdone (hw.flashed h.ok hpc (by rw [hidle]; rfl) hhalt)
  | sending s =>
    rw [show w.net.host.pc = .sending s from hpc] at hhost
    cases hhost with
    | writing seq hp hpl =>
      refine eager_write (fun hhalt => ?_) hidle hpc hpl.ne_nil
      have hall := hw.all hhalt
      have hb := congrArg List.length hw.loading.bytes
      rw [show w.delivered = _ from hp.delivered, Host.firstSectors_flatten, hidle] at hb
      have hoff := hpl.offset_lt
      simp only [sectorData, Host.sectorSize, List.length_append, List.length_map,
        NimblePc.sector_idle, List.length_nil, List.length_take, List.length_drop] at hb hoff
      omega
    | waiting _ hnil harmed hf =>
      rw [hflight] at hf
      exact eager_host (.indicate 0) trivial (by rintro _ ⟨⟩)
        (by simp only [Host.Net.step, hf]; rfl)
    | acked _ hnil hgot _ =>
      exact eager_host .wait trivial (by rintro _ ⟨⟩)
        (by simp only [Host.Net.step, hpc, hnil, hgot, if_true]; rfl)

/-- At the end of the Stop the pump ends the transfer. -/
theorem Live.next_stop (hx : Fits B fw mtuSize t) (h : Live B fw mtuSize w) (hw : Working fw w)
    (hstop : w.dev.nimble = .stopDisarm) (hdone : ¬Flashed fw w) :
    ∃ l w', Eager w l ∧ (system B fw mtuSize).step l w = some w' := by
  have hfin := hw.stopped hstop
  have hsector : w.dev.nimble.sector = [] := by rw [hstop]; rfl
  refine eager_pump fun hrest => ?_
  rcases hrest with hq | hhalt
  · have hall := hw.loading.all h.ok.inv hfin hsector
    refine hw.loading.transfer.not_quiescent h.ok.reach hx.length_pos ?_ hq
    rw [← hall, List.length_map]
  · exact hdone (hw.flashed h.ok hfin hsector hhalt)

/-- **Until the file is flashed** there is an eager step. -/
theorem Live.next (hx : Fits B fw mtuSize t) (h : Live B fw mtuSize w) (hdone : ¬Flashed fw w) :
    ∃ l w', Eager w l ∧ (system B fw mtuSize).step l w = some w' := by
  rcases h.phase with ho | hw
  · exact next_opening ho
  · have hlater := hw.loading.transfer.nimble
    cases hn : w.dev.nimble with
    | idle => exact h.next_idle hx hw hn hdone
    | recvCheck | recvSend => exact h.next_receiving hw (by rw [hn]; trivial)
    | stopDisarm => exact h.next_stop hx hw hn hdone
    | startArm | startUnblock | startFlush | startReturn | startInvalidate =>
      rw [hn] at hlater
      exact hlater.elim

/-- **Every run of eager steps** is flashed. -/
theorem Live.leads (hx : Fits B fw mtuSize t) (h : Live B fw mtuSize w) :
    (system B fw mtuSize).Leads Eager (Flashed fw) w :=
  .of_measure (left fw mtuSize) (fun _ _ _ hi _ hc hst => hi.step hx hc hst)
    (fun _ hi hdone => hi.next hx hdone) h

theorem Live.init (hx : Fits B fw mtuSize t) (h : Starts B fw w) (hrest : w.dev.Rested)
    (hsub : w.dev.comp.otaNotification.recvFw = true) : Live B fw mtuSize w := by
  refine ⟨.init hx h, ?_, .inl ⟨hrest, ?_⟩⟩
  · obtain ⟨d₀, d, -, -, -, rfl⟩ := h
    exact ⟨hsub, trivial⟩
  · obtain ⟨d₀, d, -, -, hst, rfl⟩ := h
    have hcmd : bleOtaStartWriteChr (Host.startPayload fw.length) true d₀.comp = _ :=
      if_pos ⟨rfl, rfl⟩
    have hn : d.nimble = .startArm := by
      cases Device.bleStep_act (B := B) hst with
      | start => rfl
      | stop _ ho | otherCommand _ ho =>
        rw [ho] at hcmd
        cases hcmd
    simp only [hn]

/-- **Every lossless transfer of a file that fits is flashed**: from the Start on, to a client that
has subscribed and a device that waits without a session, whatever the order of the steps of the
host, the NimBLE host task and the pump is, if the Stop and the disconnect come late enough
(`Eager`), the run comes to a state where the host has ended with `transfer_ok`, the device has
restarted, and the session that it has finished and activated has the bytes of the file. -/
theorem leads_flashed (hx : Fits B fw mtuSize t) (h : Starts B fw w) (hrest : w.dev.Rested)
    (hsub : w.dev.comp.otaNotification.recvFw = true) :
    (system B fw mtuSize).Leads Eager (Flashed fw) w :=
  (Live.init hx h hrest hsub).leads hx

theorem leads_flashed_threeBytes :
    (system .otaSlots [1, 2, 3] 23).Leads Eager (Flashed [1, 2, 3]) begun :=
  leads_flashed (t := ⟨"ota_1", 0x1C0000⟩) ⟨by decide, by decide, by decide, rfl, by decide⟩
    ⟨_, _, Lib.Lts.run_reach (.init rfl) [.ble (.subscribe ⟨true, true, true, true⟩)],
      by rintro ⟨⟩, rfl, rfl⟩ ⟨rfl, rfl, rfl, by decide⟩ rfl

end World

end BleOta
