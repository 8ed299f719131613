import BleOta.Device.Completion
import BleOta.World.Link

/-!
# From the file to the flash

`image_exact`: in every run of the host and the device where the Start callback ends in a clean
state, the ring does not overflow and the IDF does not fail (`Smooth`), what the pump has written of
the transfer is the beginning of the file, and the image that it makes bootable is the file.

The host and the component agree on the sectors that are delivered (`Host.Inv`, through
`World.net`), the pump and the sink on the bytes that the ring took (`Device.Transfer`). The
firmware callback ties the two: it refuses nothing (`Unblocked`, `Transfer.armed_of_lt`), so the
ring took what was delivered, but for the sector that it has in hand (`Loading`).
-/

namespace BleOta

open Lib (Ring)
open Host (Net NetLabel HostSt SendSector firstSectors totalSectors sectorData)

variable {B : Board} {fw : List UInt8} {mtuSize : Nat} {t : Partition}

/-! ## The firmware callback refuses nothing -/

/-- Only the open of a session comes to the places where the flag is set. -/
theorem Pump.after_unblocked (p : Pump) {o : SinkCall Cell} (r : Pc Cell ⊕ Ret)
    (ho : ∀ cfg, o.1 ≠ .sessionOpen cfg) :
    (p.after o r).pc ≠ .zeroLen ∧ (p.after o r).pc ≠ .openFailed := by
  obtain ⟨op, idf⟩ := o
  rcases r with pc | ⟨err, e⟩ | _
  · exact ⟨by rintro ⟨⟩, by rintro ⟨⟩⟩
  · cases op with
    | sessionOpen cfg => exact absurd rfl (ho cfg)
    | finish => by_cases he : err = .ok <;> simp [Pump.after, he, Pump.reset]
    | write | activate | sessionAbort => simp [Pump.after, Pump.reset]
  · exact ⟨by rintro ⟨⟩, by rintro ⟨⟩⟩

namespace Device

variable {d d' : Device} {l : DevLabel} {strict : Prop} {k L : Nat}

/-- The flag `s_open_blocked` is clear, and the pump is not about to set it. -/
def Unblocked (d : Device) : Prop :=
  d.openBlocked = false ∧ d.pump.pc ≠ .zeroLen ∧ d.pump.pc ≠ .openFailed

/-- A transfer has no item before its open that is not its own. -/
theorem Transfer.fresh_of_mayOpen (ht : Transfer strict k L d) (h : d.pump.MayOpen)
    (hpc : d.pump.pc ≠ .arrived) : Fresh k L d := by
  unfold Pump.MayOpen at h
  cases ht.phase with
  | old ho => exact absurd h ho.mayOpen
  | fresh hf => exact hf
  | opened _ _ ho =>
    have hat := ho.at_
    generalize d.pump.pc = pc at h hat hpc
    cases pc <;> first | exact absurd rfl hpc | exact hat.elim | exact h.elim
  | full _ _ hf =>
    have hat := hf.at_
    generalize d.pump.pc = pc at h hat hpc
    cases pc <;> first | exact absurd rfl hpc | exact hat.elim | exact h.elim

/-- Nothing on the device sets the flag in a transfer: its open succeeds. -/
theorem Unblocked.step (hu : d.Unblocked) (ht : Transfer strict k L d) (hr : (system B).Reach d)
    (hL : 0 < L) (htgt : B.running.bind B.nextUpdate = some t) (hfit : L ≤ t.size)
    (hg : Given strict k L d l) (hst : (system B).step l d = some d') : d'.Unblocked := by
  obtain ⟨hb, hz, hf⟩ := hu
  cases step_act hst with
  | startUnblock => exact ⟨rfl, hz, hf⟩
  | take | timesOut | timeoutAbort | timeoutBack | emptyItem | lazyOpen | toWrite | unarmed
    | giveBack | length | wroteFail => exact ⟨hb, by rintro ⟨⟩, by rintro ⟨⟩⟩
  | wroteOk hpc =>
    refine ⟨hb, ?_, ?_⟩
    all_goals
      intro he
      split at he <;> cases he
  | zero hpc hlen =>
    have hfresh := ht.fresh_of_mayOpen (by rw [Pump.MayOpen, hpc]; trivial) (by simp [hpc])
    have hat := hfresh.at_
    rw [hpc] at hat
    have := hat.2
    omega
  | zeroBlock hpc => exact absurd hpc hz
  | failBlock hpc => exact absurd hpc hf
  | @calls n idf op out hcall ho hs =>
    rcases d.pump.callOf_cases hcall with ⟨m, hpc, rfl⟩ | ⟨hpc, rfl⟩ | ⟨hpc, rfl⟩ | ⟨hpc, rfl⟩ |
      ⟨hpc, rfl⟩
    · have hfresh := ht.fresh_of_mayOpen (by rw [Pump.MayOpen, hpc]; trivial) (by simp [hpc])
      have hat := hfresh.at_
      rw [hpc] at hat
      obtain ⟨harm, rfl⟩ := hat
      have hat' := (hfresh.opens hr ht.clock harm hL htgt hfit hg.1 hpc ho).at_
      refine ⟨hb, fun he => ?_, fun he => ?_⟩ <;> rw [he] at hat' <;> exact hat'.elim
    all_goals exact ⟨hb, d.pump.after_unblocked _ (by rintro _ ⟨⟩)⟩
  | @sections n idf o pc out hpc ho hs =>
    refine ⟨hb, d.pump.after_unblocked _ fun cfg he => ?_⟩
    rcases (DevOk.reach hr).call o pc hpc with h | h | h <;> rw [he] at h <;> cases h
  | reply | sectorEnd | start | stop | otherCommand | subscribe | disconnect | recvPass | recvRefuse
    | sendOk | sendFull | startArm | flushTake | flushDone | flushReturn | startInvalidate
    | stopDisarm => exact ⟨hb, hz, hf⟩

/-- The transport is armed until all bytes are accepted. -/
theorem Transfer.armed_of_lt (ht : Transfer strict k L d) (hrun : d.pump.pc ≠ .halted)
    (hlt : (acceptedAt k d.log).length < L) : d.armed = true := by
  cases ht.phase with
  | old ho =>
    rcases ho.flags with h | h
    · exact absurd h hrun
    · exact h.1
  | fresh hf =>
    have hat := hf.at_
    generalize d.pump.pc = pc at hat
    cases pc with
    | arrived => exact hat.1
    | readLen | opening => exact hat.1.resolve_right (Nat.ne_of_lt hlt)
    | _ => exact hat.elim
  | opened _ _ ho => exact ho.armed.resolve_right (Nat.ne_of_lt hlt)
  | full _ _ hf => exact absurd hf.len (Nat.ne_of_lt hlt)

end Device

/-! ## The invariant -/

/-- The Start and its session callback. -/
def NimblePc.Starting : NimblePc → Prop
  | .startArm | .startUnblock | .startFlush | .startReturn _ | .startInvalidate => True
  | _ => False

/-- The NimBLE host task has a sector in hand. -/
def NimblePc.Receiving : NimblePc → Prop
  | .recvCheck .. | .recvSend .. => True
  | _ => False

namespace World

open Device (Given StopCond Transfer Unblocked acceptedAt CleanStart)

variable {w w' : World} {l : WorldLabel}

/-- After the Start callback: the ring took what the component delivered, but for the sector in
hand. -/
structure Loading (fw : List UInt8) (w : World) : Prop where
  transfer : Transfer True w.dev.clock fw.length w.dev
  unblocked : w.dev.Unblocked
  bytes : (acceptedAt w.dev.clock w.dev.log).map (·.byte) ++ w.dev.nimble.sector =
    w.delivered.flatten

/-- In the Start callback: nothing is delivered yet, and the declared length is that of the file. -/
def Begins (fw : List UInt8) (w : World) : Prop :=
  w.dev.nimble.Starting ∧ w.delivered = [] ∧ w.dev.comp.otaTotalLen = fw.length

/-- The invariant (module doc). -/
structure Ok (B : Board) (fw : List UInt8) (mtuSize : Nat) (w : World) : Prop where
  reach : (Device.system B).Reach w.dev
  inv : Host.Inv fw mtuSize w.net
  whole : Host.Whole fw w.delivered
  sector : w.dev.nimble.Receiving → w.dev.nimble.sector ≠ []
  phase : Begins fw w ∨ Loading fw w

/-- The condition of a step: the Start callback ends in a clean state, the ring does not overflow,
the IDF does not fail; after the loop has ended with `transfer_ok` come the Stop and the
disconnect, which meet `StopCond`. -/
def Smooth (w : World) : WorldLabel → Prop
  | .host _ => True
  | .nimble n =>
    (w.dev.nimble = .startInvalidate → CleanStart w.dev ∧ w.dev.Unblocked) ∧
    (∀ sector data frame, w.dev.nimble = .recvSend sector data frame →
      w.dev.ring.used + data.length ≤ ringbufSize) ∧ StopCond w.dev (.nimble n)
  | .pump _ idf =>
    idf.begin = espOk ∧ idf.write = espOk ∧ idf.end = espOk ∧ idf.setBoot = espOk
  | .stop => StopCond w.dev (.ble (.command [0x02, 0x00] true))
  | .disconnect => w.host.pc = .finished true ∧ StopCond w.dev (.ble .disconnect)

theorem Loading.le (h : Loading fw w) (hw : Host.Whole fw w.delivered) :
    (acceptedAt w.dev.clock w.dev.log).length + w.dev.nimble.sector.length ≤ fw.length := by
  have hlen := congrArg List.length h.bytes
  have hpre := hw.flatten_prefix.length_le
  rw [List.length_append, List.length_map] at hlen
  omega

/-- With all sectors delivered and none in hand the ring took the file. -/
theorem Loading.all (h : Loading fw w) (hinv : Host.Inv fw mtuSize w.net)
    (hfin : w.host.pc = .finished true) (hs : w.dev.nimble.sector = []) :
    (acceptedAt w.dev.clock w.dev.log).map (·.byte) = fw := by
  have hb := h.bytes
  rw [hs, List.append_nil] at hb
  unfold Host.Inv at hinv
  rw [show w.net.host.pc = .finished true from hfin] at hinv
  rw [hb, show w.delivered = _ from hinv rfl, Host.firstSectors_total]

/-! ## The steps -/

/-- What a step of the host does to the device: a packet reaches it, or nothing. -/
theorem hostStep_cases {l : NetLabel} (h : w.hostStep fw mtuSize l = some w') :
    (w'.dev = w.dev ∧ w'.delivered = w.delivered) ∨
    ∃ s pkt rest w₁, w.host.pc = .sending s ∧ s.rest = pkt :: rest ∧ w.handle pkt = some w₁ ∧
      w'.dev = w₁.dev ∧ w'.delivered = w₁.delivered := by
  unfold hostStep at h
  split at h
  next link =>
    split at h
    next s hpc =>
      split at h
      · cases h
      next pkt rest hr =>
        cases link with
        | up =>
          obtain ⟨w₁, h₁, rfl⟩ := Option.map_eq_some_iff.mp h
          exact .inr ⟨s, pkt, rest, w₁, hpc, hr, h₁, rfl, rfl⟩
        | down reached timeout =>
          obtain ⟨w₁, h₁, rfl⟩ := Option.map_eq_some_iff.mp h
          cases reached with
          | true => exact .inr ⟨s, pkt, rest, w₁, hpc, hr, h₁, rfl, rfl⟩
          | false =>
            cases h₁
            exact .inl ⟨rfl, rfl⟩
    · cases h
  · obtain ⟨n, -, rfl⟩ := Option.map_eq_some_iff.mp h
    exact .inl ⟨rfl, rfl⟩

/-- The conditions on the file and the target. -/
structure Fits (B : Board) (fw : List UInt8) (mtuSize : Nat) (t : Partition) : Prop where
  mtu : 23 ≤ mtuSize
  pos : fw ≠ []
  total : totalSectors fw < 65536
  target : B.running.bind B.nextUpdate = some t
  fits : fw.length ≤ t.size

theorem Fits.length_pos (h : Fits B fw mtuSize t) : 0 < fw.length :=
  List.length_pos_of_ne_nil h.pos

theorem Fits.length_lt (h : Fits B fw mtuSize t) : fw.length < 2 ^ 32 := by
  have := h.total
  unfold totalSectors at this
  unfold Host.sectorSize at this
  omega

/-- A step of the device in a transfer. -/
theorem Loading.device {e : DevLabel} {d : Device} (hx : Fits B fw mtuSize t)
    (h : Loading fw w) (hr : (Device.system B).Reach w.dev)
    (hg : Given True w.dev.clock fw.length w.dev e) (hc : StopCond w.dev e)
    (hst : (Device.system B).step e w.dev = some d) :
    Transfer True d.clock fw.length d ∧ d.Unblocked ∧ d.clock = w.dev.clock := by
  have ht := h.transfer.step hr hx.length_pos hx.length_lt hx.target hx.fits hg hc hst
  have hu := h.unblocked.step h.transfer hr hx.length_pos hx.target hx.fits hg hst
  have hk : d.clock = w.dev.clock := ht.clock
  exact ⟨hk ▸ ht, hu, hk⟩

/-- What a packet does to the history and to the NimBLE host task. -/
theorem packet_cases {d d' : Device} {pkt : List UInt8} (k : Nat)
    (h : d.bleStep (.packet pkt) = some d') :
    d.nimble = .idle ∧ acceptedAt k d'.log = acceptedAt k d.log ∧
      ((d'.nimble = .idle ∧ (recvFwWrite pkt d.comp).2.delivered = []) ∨
        ∃ sector data frame, d'.nimble = .recvCheck sector data frame ∧
          (recvFwWrite pkt d.comp).2.delivered = [data]) := by
  cases Device.bleStep_act (B := .otaSlots) h with
  | @reply om frame err c hn ho =>
    refine ⟨hn, ?_, .inl ⟨hn, by rw [ho]; rfl⟩⟩
    rw [Device.acceptedAt_emit]
    cases frame <;> simp
  | @sectorEnd om sector data frame c hn ho =>
    exact ⟨hn, rfl, .inr ⟨sector, data, frame, rfl, by rw [ho]; rfl⟩⟩

/-- A packet that reaches the device. -/
theorem Ok.handle {s : SendSector} {pkt : List UInt8} {rest : List (List UInt8)} {w₁ : World}
    (hx : Fits B fw mtuSize t) (h : Ok B fw mtuSize w) (hpc : w.host.pc = .sending s)
    (hr : s.rest = pkt :: rest) (hw : w.handle pkt = some w₁) :
    (Device.system B).Reach w₁.dev ∧ Host.Whole fw w₁.delivered ∧
      (w₁.dev.nimble.Receiving → w₁.dev.nimble.sector ≠ []) ∧ Loading fw w₁ := by
  obtain ⟨hnet, -, -, hble⟩ := handle_net hw
  have hst : (Device.system B).step (.ble (.packet pkt)) w.dev = some w₁.dev := hble
  have hwhole : Host.Whole fw w₁.delivered := by
    have := h.inv.handle_whole (n := w.net) hx.mtu hx.total hpc hr
    rwa [← hnet] at this
  have hdel : w₁.delivered = w.delivered ++ (recvFwWrite pkt w.dev.comp).2.delivered := by
    obtain ⟨d, -, rfl⟩ := Option.map_eq_some_iff.mp hw
    rfl
  obtain ⟨hidle, hacc, hout⟩ := packet_cases w.dev.clock hble
  have hload : Loading fw w := by
    rcases h.phase with ⟨hstart, -⟩ | hload
    · rw [hidle] at hstart
      exact hstart.elim
    · exact hload
  obtain ⟨ht, hu, hk⟩ := hload.device (e := .ble (.packet pkt)) hx h.reach trivial trivial hst
  have hb := hload.bytes
  rw [hidle, NimblePc.sector_idle, List.append_nil] at hb
  refine ⟨.step _ h.reach hst, hwhole, fun hrecv => ?_, ⟨ht, hu, ?_⟩⟩
  · rcases hout with ⟨hn, -⟩ | ⟨sector, data, frame, hn, hd⟩
    · rw [hn] at hrecv
      exact hrecv.elim
    · rw [hn]
      exact hwhole.ne_nil (by rw [hdel, hd]; simp)
  · rw [hk, hacc, hb, hdel, List.flatten_append]
    rcases hout with ⟨hn, hd⟩ | ⟨sector, data, frame, hn, hd⟩ <;> simp [hn, hd]

/-- A step of the host. -/
theorem Ok.host {nl : NetLabel} (hx : Fits B fw mtuSize t) (h : Ok B fw mtuSize w)
    (hst : w.hostStep fw mtuSize nl = some w') : Ok B fw mtuSize w' := by
  have hinv : Host.Inv fw mtuSize w'.net := h.inv.step hx.mtu
    (fun s hpc => Nat.lt_of_le_of_lt (h.inv.delivered_le hpc) hx.total) (hostStep_net hst)
  rcases hostStep_cases hst with ⟨hd, hdel⟩ | ⟨s, pkt, rest, w₁, hpc, hr, hw, hd, hdel⟩
  · refine ⟨hd ▸ h.reach, hinv, hdel ▸ h.whole, hd ▸ h.sector, ?_⟩
    rcases h.phase with ⟨h1, h2, h3⟩ | ⟨h1, h2, h3⟩
    · exact .inl ⟨hd ▸ h1, hdel ▸ h2, hd ▸ h3⟩
    · exact .inr ⟨hd ▸ h1, hd ▸ h2, by rw [hd, hdel]; exact h3⟩
  · obtain ⟨h1, h2, h3, h4, h5, h6⟩ := h.handle hx hpc hr hw
    exact ⟨hd ▸ h1, hinv, hdel ▸ h2, hd ▸ h3, .inr ⟨hd ▸ h4, hd ▸ h5, by rw [hd, hdel]; exact h6⟩⟩

/-- A step of the pump. -/
theorem Ok.pump {n : Nat} {idf : Idf} (hx : Fits B fw mtuSize t) (h : Ok B fw mtuSize w)
    (hc : Smooth w (.pump n idf)) {d : Device} (hst : w.dev.pumpStep B n idf = some d) :
    Ok B fw mtuSize { w with dev := d } := by
  have hstep : (Device.system B).step (.pump n idf) w.dev = some d := hst
  obtain ⟨hclock, hn, hacc, -⟩ := Device.pumpStep_frame (k := w.dev.clock) hstep
  have hcomp : d.comp = w.dev.comp := by
    cases Device.step_act (B := B) hstep <;> rfl
  refine ⟨.step _ h.reach hstep, ?_, h.whole, ?_, ?_⟩
  · rw [pumpStep_net hst]
    exact h.inv
  · show d.nimble.Receiving → d.nimble.sector ≠ []
    rw [hn]
    exact h.sector
  · rcases h.phase with ⟨h1, h2, h3⟩ | hload
    · refine .inl ⟨?_, h2, ?_⟩
      · show d.nimble.Starting
        rwa [hn]
      · show d.comp.otaTotalLen = _
        rwa [hcomp]
    · obtain ⟨ht, hu, hk⟩ := hload.device (e := .pump n idf) hx h.reach
        ⟨hc.1, hc.2.1, fun _ => hc.2.2⟩ trivial hstep
      refine .inr ⟨ht, hu, ?_⟩
      show (acceptedAt d.clock d.log).map (·.byte) ++ d.nimble.sector = _
      rw [hk, hacc, hn]
      exact hload.bytes

/-- A step of the NimBLE host task in the Start callback. -/
theorem Begins.nimble {n : Nat} {d : Device} (h : Begins fw w) (hr : (Device.system B).Reach w.dev)
    (hc : Smooth w (.nimble n)) (hst : w.dev.nimbleStep n = some d) :
    Begins fw { w with dev := d } ∨
      (d.nimble = .idle ∧ Loading fw { w with dev := d }) := by
  obtain ⟨hstart, hdel, hlen⟩ := h
  have hstep : (Device.system B).step (.nimble n) w.dev = some d := hst
  cases Device.nimbleStep_act (B := B) hst with
  | startArm | startUnblock | flushTake | flushDone | flushReturn =>
    exact .inl ⟨trivial, hdel, hlen⟩
  | startInvalidate hn =>
    obtain ⟨hclean, hu⟩ := hc.1 hn
    have ht : Transfer True (w.dev.clock + 1) w.dev.comp.otaTotalLen _ :=
      .start hr hn hclean hstep
    refine .inr ⟨rfl, hlen ▸ ht, hu, ?_⟩
    have hacc : acceptedAt (w.dev.clock + 1) (w.dev.emit [.sink .poke]).log = [] := by
      rw [Device.acceptedAt_emit, if_neg (Nat.ne_of_lt (Nat.lt_succ_self _)), List.append_nil]
      refine List.flatMap_eq_nil_iff.mpr fun x hx => ?_
      have := (Device.HistoryOk.reach hr).stamp x hx
      rw [if_neg (by omega)]
    show (acceptedAt (w.dev.clock + 1) (w.dev.emit [.sink .poke]).log).map (·.byte) ++ [] = _
    rw [hacc, hdel]
    rfl
  | recvPass hn | recvRefuse hn | sendOk hn | sendFull hn | stopDisarm hn =>
    rw [hn] at hstart
    exact hstart.elim

/-- A step of the NimBLE host task in the firmware callback, or at the end of the Stop. -/
theorem Loading.nimble {n : Nat} {d : Device} (hx : Fits B fw mtuSize t) (h : Loading fw w)
    (hok : Ok B fw mtuSize w) (hrun : w.dev.pump.pc ≠ .halted)
    (hc : Smooth w (.nimble n)) (hst : w.dev.nimbleStep n = some d) :
    Loading fw { w with dev := d } ∧ (d.nimble.Receiving → d.nimble.sector ≠ []) := by
  have hstep : (Device.system B).step (.nimble n) w.dev = some d := hst
  have hle := h.le hok.whole
  have hg : Given True w.dev.clock fw.length w.dev (.nimble n) := by
    intro sector data frame hn
    rw [hn] at hle
    exact ⟨hc.2.1 sector data frame hn, hle⟩
  obtain ⟨ht, hu, hk⟩ := h.device (e := .nimble n) hx hok.reach hg hc.2.2 hstep
  have hb := h.bytes
  have hlater := h.transfer.nimble
  cases Device.nimbleStep_act (B := B) hst with
  | recvPass hn =>
    rw [hn] at hb
    exact ⟨⟨ht, hu, hb⟩, fun _ => by have := hok.sector (by rw [hn]; trivial); rwa [hn] at this⟩
  | recvRefuse hn hno =>
    have hne := hok.sector (by rw [hn]; trivial)
    rw [hn] at hne hle
    have hpos := List.length_pos_of_ne_nil hne
    exact absurd ⟨h.transfer.armed_of_lt hrun (by omega), h.unblocked.1⟩ hno
  | @sendOk n sector data frame ring hn hs =>
    rw [hn] at hb
    refine ⟨⟨ht, hu, ?_⟩, False.elim⟩
    show (acceptedAt w.dev.clock (w.dev.emit (.accepted (w.dev.cells data) ::
      w.dev.notified .recvFw frame sector)).log).map (·.byte) ++ [] = _
    rw [Device.acceptedAt_emit, if_pos rfl, List.flatMap_cons, Device.accepts_notified]
    simpa [DevEv.accepts, Device.cells, Function.comp_def] using hb
  | @sendFull n sector data frame hn hs =>
    have hfull := Ring.send_eq_none hs
    have := hc.2.1 sector data frame hn
    simp [Device.cells] at hfull
    omega
  | stopDisarm hn =>
    rw [hn] at hb
    exact ⟨⟨ht, hu, hb⟩, False.elim⟩
  | startArm hn | startUnblock hn | flushTake hn | flushDone hn | flushReturn hn
    | startInvalidate hn =>
    rw [hn] at hlater
    exact hlater.elim

theorem Ok.nimble {n : Nat} (hx : Fits B fw mtuSize t) (h : Ok B fw mtuSize w)
    (hc : Smooth w (.nimble n)) (hst : w.nimbleStep n = some w') : Ok B fw mtuSize w' := by
  obtain ⟨hnet, hhost, hdel, hrun, hn⟩ := nimbleStep_net hst
  have hw : w' = { w with dev := w'.dev, flight := w'.flight } := by rw [← hhost, ← hdel]
  have hreach : (Device.system B).Reach w'.dev := .step (.nimble n) h.reach hn
  have hinv : Host.Inv fw mtuSize w'.net := hnet ▸ h.inv
  rcases h.phase with hb | hl
  · rcases hb.nimble h.reach hc hn with hb' | ⟨hidle, hl'⟩
    · refine ⟨hreach, hinv, hdel ▸ h.whole, fun hrecv => ?_, .inl ⟨hb'.1, hdel ▸ hb'.2.1, hb'.2.2⟩⟩
      have hs : w'.dev.nimble.Starting := hb'.1
      generalize w'.dev.nimble = pc at hrecv hs
      cases pc <;> first | exact hrecv.elim | exact hs.elim
    · refine ⟨hreach, hinv, hdel ▸ h.whole, fun hrecv => ?_, .inr ⟨hl'.1, hl'.2, hdel ▸ hl'.3⟩⟩
      rw [hidle] at hrecv
      exact hrecv.elim
  · obtain ⟨hl', hs⟩ := hl.nimble hx h hrun hc hn
    exact ⟨hreach, hinv, hdel ▸ h.whole, hs, .inr ⟨hl'.1, hl'.2, hdel ▸ hl'.3⟩⟩

/-- A command or the end of the connection gives nothing to the firmware callback. -/
theorem ble_quiet {d d' : Device} {e : BleEvent} (k : Nat) (he : ∀ pkt, e ≠ .packet pkt)
    (h : d.bleStep e = some d') : d.nimble = .idle ∧ acceptedAt k d'.log = acceptedAt k d.log ∧
      d'.nimble.sector = [] ∧ ¬d'.nimble.Receiving := by
  cases Device.bleStep_act (B := .otaSlots) h with
  | reply | sectorEnd => exact absurd rfl (he _)
  | start hn | stop hn =>
    refine ⟨hn, ?_, rfl, id⟩
    show acceptedAt k (Device.emit _ _).log = _
    rw [Device.acceptedAt_emit, Device.accepts_notified]
    simp
  | otherCommand hn | subscribe hn | disconnect hn =>
    refine ⟨hn, rfl, ?_, ?_⟩ <;> simp [hn, NimblePc.Receiving]

/-- The Stop, or the end of the connection after a complete transfer. -/
theorem Ok.ends {e : BleEvent} {d : Device} (hx : Fits B fw mtuSize t) (h : Ok B fw mtuSize w)
    (hfin : w.host.pc = .finished true) (he : ∀ pkt, e ≠ .packet pkt)
    (hg : (acceptedAt w.dev.clock w.dev.log).length = fw.length →
      Given True w.dev.clock fw.length w.dev (.ble e)) (hc : StopCond w.dev (.ble e))
    (hst : w.dev.bleStep e = some d) : Ok B fw mtuSize { w with dev := d } := by
  have hstep : (Device.system B).step (.ble e) w.dev = some d := hst
  obtain ⟨hidle, hacc, hsec, hrecv⟩ := ble_quiet w.dev.clock he hst
  have hload : Loading fw w := by
    rcases h.phase with ⟨hstart, -⟩ | hload
    · rw [hidle] at hstart
      exact hstart.elim
    · exact hload
  have hall := hload.all h.inv hfin (by rw [hidle]; rfl)
  have hlen : (acceptedAt w.dev.clock w.dev.log).length = fw.length := by
    rw [← hall, List.length_map]
  obtain ⟨ht, hu, hk⟩ := hload.device hx h.reach (hg hlen) hc hstep
  have hinv : Host.Inv fw mtuSize (net { w with dev := d }) := by
    have := h.inv
    unfold Host.Inv at this ⊢
    rw [show w.net.host.pc = .finished true from hfin] at this
    rw [show (net { w with dev := d }).host.pc = .finished true from hfin]
    exact this
  refine ⟨.step _ h.reach hstep, hinv, h.whole, fun hx => absurd hx hrecv, .inr ⟨ht, hu, ?_⟩⟩
  have hb := hload.bytes
  rw [hidle] at hb
  show (acceptedAt d.clock d.log).map (·.byte) ++ d.nimble.sector = _
  rw [hk, hacc, hsec]
  exact hb

/-- **Every step** of a smooth run keeps the invariant. -/
theorem Ok.step (hx : Fits B fw mtuSize t) (h : Ok B fw mtuSize w) (hc : Smooth w l)
    (hst : (system B fw mtuSize).step l w = some w') : Ok B fw mtuSize w' := by
  cases l with
  | host nl => exact h.host hx hst
  | nimble n => exact h.nimble hx hc hst
  | pump n idf =>
    obtain ⟨d, hd, rfl⟩ := Option.map_eq_some_iff.mp hst
    exact h.pump hx hc hd
  | stop =>
    simp only [system, step] at hst
    split at hst
    next hfin =>
      obtain ⟨d, hd, rfl⟩ := Option.map_eq_some_iff.mp hst
      exact h.ends (e := .command [0x02, 0x00] true) hx hfin (by rintro _ ⟨⟩)
        (fun hlen => ⟨by rintro ⟨⟨⟩, -⟩, fun _ => hlen⟩) hc (ble_step hd).2
    · cases hst
  | disconnect =>
    simp only [system, step] at hst
    rw [hc.1] at hst
    obtain ⟨d, hd, rfl⟩ := Option.map_eq_some_iff.mp hst
    exact h.ends (e := .disconnect) hx hc.1 (by rintro _ ⟨⟩) id hc.2 (ble_step hd).2

/-- The declared length that the component reads from the Start is the length of the file. -/
theorem startPayload_length {n : Nat} (hn : n < 2 ^ 32) (c : Component) :
    (bleOtaStartWriteChr (Host.startPayload n) true c).1.otaTotalLen = n := by
  have hc : bleOtaStartWriteChr (Host.startPayload n) true c = _ := if_pos ⟨rfl, rfl⟩
  rw [hc]
  simp [Host.startPayload, Host.packH, u32]
  omega

theorem Ok.init (hx : Fits B fw mtuSize t) (h : Starts B fw w) : Ok B fw mtuSize w := by
  obtain ⟨d₀, d, hr, -, hst, rfl⟩ := h
  have hstep : (Device.system B).step (.ble (.command (Host.startPayload fw.length) true)) d₀ =
      some d := hst
  have hcmd : bleOtaStartWriteChr (Host.startPayload fw.length) true d₀.comp = _ :=
    if_pos ⟨rfl, rfl⟩
  have hlen := startPayload_length hx.length_lt d₀.comp
  have hstart := Host.Inv.start fw mtuSize d₀.comp
  unfold Host.Net.start at hstart
  cases Device.bleStep_act (B := B) hst with
  | @start om malloc frame c hn ho =>
    rw [ho] at hlen hstart
    exact ⟨.step _ hr hstep, hstart, ⟨0, Nat.zero_le _, rfl⟩, False.elim, .inl ⟨trivial, rfl, hlen⟩⟩
  | stop hn ho | otherCommand hn ho =>
    rw [ho] at hcmd
    cases hcmd

/-! ## The image -/

/-- What a state has of the file, after the Start callback. The bytes of this transfer are written
on one handle; they are the beginning of the file. When the host has ended its loop with
`transfer_ok` and the handler has returned, the pump does not come to rest before it restarts the
device; and then, if it has written one of the bytes, it has validated and activated the session
that was opened for them, and the file is written on its handle. -/
structure Image (fw : List UInt8) (w : World) : Prop where
  written : ∃ h, Device.OnlyOn w.dev.clock h w.dev.log ∧
    (Device.writtenOn h w.dev.log).map (·.byte) <+: fw
  busy : w.host.pc = .finished true → w.dev.nimble = .idle → ¬Device.Quiescent w.dev
  booted : w.host.pc = .finished true → w.dev.nimble = .idle → w.dev.pump.pc = .halted →
    (∃ kw h data err, (kw, .sink (.ev (.otaWrite h data err))) ∈ w.dev.log ∧
      ∃ c ∈ data, c.born = w.dev.clock) →
    ∃ h e, (∃ t, (w.dev.clock, .sink (.ev (.otaBegin t fw.length h espOk))) ∈ w.dev.log) ∧
      (Device.writtenOn h w.dev.log).map (·.byte) = fw ∧
      Device.Traced fw.length h e [.finish e, .activate e true] (Device.sinkLog w.dev.log)

theorem Loading.image (hx : Fits B fw mtuSize t) (h : Loading fw w) (hok : Ok B fw mtuSize w) :
    Image fw w where
  written := by
    obtain ⟨-, hd, item, -, hacc, honly, -⟩ := h.transfer.keeps hok.reach
    refine ⟨hd, honly, ?_⟩
    have hpre := hok.whole.flatten_prefix
    rw [← h.bytes, ← hacc, List.map_append, List.map_append, List.append_assoc,
      List.append_assoc] at hpre
    exact (List.prefix_append _ _).trans hpre
  busy hfin hidle := by
    have hall := h.all hok.inv hfin (by rw [hidle]; rfl)
    refine h.transfer.not_quiescent hok.reach hx.length_pos ?_
    rw [← hall, List.length_map]
  booted hfin hidle hpc hw := by
    have hall := h.all hok.inv hfin (by rw [hidle]; rfl)
    obtain ⟨kw, h', data, err, hm, c, hc, hb⟩ := hw
    cases h.transfer.phase with
    | old ho =>
      have := Device.device_written_le hok.reach hm
      exact absurd hb (ho.only kw h' data err hm (by omega) c hc)
    | fresh hf =>
      have hat := hf.at_
      rw [hpc] at hat
      exact hat.elim
    | opened _ _ ho =>
      have hat := ho.at_
      rw [hpc] at hat
      exact hat.elim
    | full hd e hf =>
      have hat := hf.at_
      rw [hpc] at hat
      exact ⟨hd, e, hf.begun, by rw [← hf.acc, hall], hat⟩

/-- A device whose client has subscribed, at the Start for a file of three bytes. -/
def begun : World where
  host := ⟨0, -1, .loop⟩
  dev := (Device.system .otaSlots).run [.ble (.subscribe ⟨true, true, true, true⟩),
    .ble (.command (Host.startPayload 3) true)] .init
  flight := []
  delivered := []

/-- The world after the steps `ls`. -/
def after (ls : List WorldLabel) : World := (system .otaSlots [1, 2, 3] 23).run ls begun

/-- The pump opens the session, writes, finishes and activates. -/
def flashes : List WorldLabel := List.replicate 15 (.pump 4095 .allOk)

end World

end BleOta
