import BleOta.Device.Transfer

/-!
# The data of a Start, and a completed transfer

* `new_data_kept`: after a clean end of a Start callback no byte of the new Start is dropped, and
  the bytes go in order into one session that was opened after it.
* `new_data_dropped`: a run where the pump still has the epoch of an earlier session, and drops the
  first chunk of the new Start.
* `transfer_completed`: after a clean end of a Start callback a Stop or a disconnect that meets
  `StopCond` does not keep a transfer of all bytes from its finish and activate.
* `transfer_killed`: a run where the Stop command comes before the pump has its first item.
-/

namespace BleOta.Device

/-- The conditions of a run without a Start, a Stop or a disconnect. -/
def Undisturbed (k L : Nat) (d : Device) (l : DevLabel) : Prop :=
  Given False k L d l ∧ (match l with
    | .ble (.command om _) => ¬IsStop om
    | .ble .disconnect => False
    | .nimble _ => d.nimble ≠ .stopDisarm
    | _ => True)

/-- No byte that the ring took at the clock `k` is dropped; those that the pump took are written, in
order, on one handle of a session of `L` bytes that was opened at this clock, but for its item. -/
def Kept (k L : Nat) (d : Device) : Prop :=
  (∀ kd data, (kd, .dropped data) ∈ d.log → ∀ c ∈ data, c.born ≠ k) ∧
  ∃ h item, (item = [] ∨ item = d.pump.data) ∧
    writtenOn h d.log ++ item ++ d.ring.queue = acceptedAt k d.log ∧ OnlyOn k h d.log ∧
    (writtenOn h d.log ≠ [] → ∃ t, (k, .sink (.ev (.otaBegin t L h espOk))) ∈ d.log)

/-- The pump waits for an item and the ring has none. -/
def Quiescent (d : Device) : Prop := d.pump.pc = .receive ∧ d.ring.queue = []

/-- A session of `L` bytes was opened at the clock `k`, the bytes that the ring took were written on
its handle, and then finish and activate were called for it. -/
def Completed (k L : Nat) (d : Device) : Prop :=
  ∃ h e, (∃ t, (k, .sink (.ev (.otaBegin t L h espOk))) ∈ d.log) ∧
    writtenOn h d.log = acceptedAt k d.log ∧ (acceptedAt k d.log).length = L ∧
    Traced L h e [.finish e, .activate e true] (sinkLog d.log)

variable {B : Board} {d₀ d₁ d : Device} {n : Nat} {t : Partition} {k L : Nat} {strict : Prop}

theorem Transfer.keeps (ht : Transfer strict k L d) (hr : (system B).Reach d) : Kept k L d := by
  refine ⟨ht.kept, ?_⟩
  cases ht.phase with
  | old h =>
    refine ⟨d.sink.handles + 1, [], .inl rfl, ?_, h.only, fun hx => absurd (writtenOn_new hr) hx⟩
    rw [writtenOn_new hr, h.acc]
    rfl
  | fresh h =>
    refine ⟨d.sink.handles + 1, d.pump.data, .inr rfl, ?_, h.only,
      fun hx => absurd (writtenOn_new hr) hx⟩
    rw [writtenOn_new hr, h.acc]
    rfl
  | opened h e ho =>
    have hpend : Pending k h d → ∃ item, (item = [] ∨ item = d.pump.data) ∧
        writtenOn h d.log ++ item ++ d.ring.queue = acceptedAt k d.log :=
      fun hx => ⟨d.pump.data, .inr rfl, hx.1.symm⟩
    have hflash : Flashed k h d → ∃ item, (item = [] ∨ item = d.pump.data) ∧
        writtenOn h d.log ++ item ++ d.ring.queue = acceptedAt k d.log :=
      fun hx => ⟨[], .inl rfl, by rw [List.append_nil]; exact hx.1.symm⟩
    have hitem : ∃ item, (item = [] ∨ item = d.pump.data) ∧
        writtenOn h d.log ++ item ++ d.ring.queue = acceptedAt k d.log := by
      have hat := ho.at_
      generalize d.pump.pc = pc at hat
      cases pc with
      | receive | timeout => exact hpend hat.1
      | arrived | writing => exact hpend hat
      | wrote => exact hflash hat.1
      | inSink o pc =>
        cases pc with
        | writeFlash => exact hpend hat.1
        | writeAccount => exact hflash hat
        | _ => exact hat.elim
      | _ => exact hat.elim
    obtain ⟨item, hi, heq⟩ := hitem
    exact ⟨h, item, hi, heq, ho.only, fun _ => ho.begun⟩
  | full h e hf =>
    refine ⟨h, [], .inl rfl, ?_, hf.only, fun _ => hf.begun⟩
    rw [hf.queue, List.append_nil, List.append_nil, hf.acc]

/-- **A new Start loses none of its own data**, if its callback ends in a clean state. -/
theorem new_data_kept (hr : (system B).Reach d₀) (hn : d₀.nimble = .startInvalidate)
    (hst : (system B).step (.nimble n) d₀ = some d₁) (hclean : CleanStart d₀)
    (hL0 : 0 < d₀.comp.otaTotalLen) (htgt : B.running.bind B.nextUpdate = some t)
    (hfit : d₀.comp.otaTotalLen ≤ t.size)
    (hrun : (system B).Run (Undisturbed d₁.clock d₀.comp.otaTotalLen) d₁ d) :
    Kept d₁.clock d₀.comp.otaTotalLen d := by
  have hrun' := hrun.mono (D := fun d l =>
      Given False d₁.clock d₀.comp.otaTotalLen d l ∧ StopCond d l) (fun s l hx => by
    refine ⟨hx.1, ?_⟩
    have h2 := hx.2
    cases l with
    | ble ev =>
      cases ev with
      | command om malloc => exact fun hs => absurd hs h2
      | disconnect => exact h2.elim
      | packet | subscribe => trivial
    | nimble n => exact fun hs => absurd hs h2
    | pump => trivial)
  obtain ⟨hd, ht⟩ := Transfer.run hr hn hst hclean hL0 htgt hfit hrun'
  exact ht.keeps hd

/-- The device with two OTA slots after the steps `ls`. -/
def after (ls : List DevLabel) : Device := (system .otaSlots).run ls .init

/-- A Start with the declared length `len` up to its `ota_sink_epoch_invalidate`. -/
def startUpTo (len : UInt8) : List DevLabel := startCommand len :: List.replicate 3 (.nimble 0)

/-- All of a Start with the declared length `len`. -/
def wholeStart (len : UInt8) : List DevLabel := startUpTo len ++ [.nimble 0]

/-- A sector of two bytes, accepted by the ring. -/
def acceptedSector (a b : UInt8) : List DevLabel := wholePacket 0 [a, b] :: recvCallback

theorem pumpSteps_run {C : Device → DevLabel → Prop} (hC : ∀ d, C d (.pump 4095 .allOk))
    (h : (system B).exec (pumpSteps n) d₀ = some d) : (system B).Run C d₀ d :=
  Lib.Lts.exec_run_forall (fun _ hl d => List.eq_of_mem_replicate hl ▸ hC d) h

theorem undisturbed_pump : Undisturbed k L d (.pump 4095 .allOk) :=
  ⟨⟨rfl, rfl, False.elim⟩, trivial⟩

/-- A Start, and a sector of it that the pump writes. -/
def keptRun : List DevLabel := wholeStart 8 ++ acceptedSector 1 2 ++ pumpSteps 8

theorem new_data_kept_keptRun : Kept 2 8 (after keptRun) := by
  have hm : (system .otaSlots).Meets (Undisturbed 2 8) (acceptedSector 1 2)
      (after (wholeStart 8)) :=
    ⟨⟨trivial, trivial⟩, _, rfl, ⟨by rintro _ _ _ ⟨⟩, by rintro ⟨⟩⟩, _, rfl,
      ⟨by rintro _ _ _ ⟨⟩; exact ⟨by decide, by decide⟩, by rintro ⟨⟩⟩, _, rfl, trivial⟩
  have hr : (system .otaSlots).Run (Undisturbed 2 8) (after (wholeStart 8))
      (after (wholeStart 8 ++ acceptedSector 1 2)) :=
    Lib.Lts.exec_run hm rfl
  have hp : (system .otaSlots).Run (Undisturbed 2 8)
      (after (wholeStart 8 ++ acceptedSector 1 2)) (after keptRun) :=
    pumpSteps_run (n := 8) (fun _ => undisturbed_pump) rfl
  exact new_data_kept (B := .otaSlots) (t := ⟨"ota_1", 0x1C0000⟩) (n := 0)
    (Lib.Lts.run_reach (.init rfl) (startUpTo 8)) rfl rfl ⟨rfl, id, fun hx => hx.1 rfl, by decide⟩
    (by decide) rfl (by decide) (hr.trans hp)

/-- The pump has written a sector of the first Start and waits, with its epoch, when a second Start
comes. -/
def lingering : List DevLabel :=
  startCommand 8 :: startCallback ++ acceptedSector 1 2 ++ pumpSteps 8 ++ startUpTo 8

/-- The second Start, and its first sector. -/
def droppedRun : List DevLabel := lingering ++ [.nimble 0] ++ acceptedSector 3 4 ++ pumpSteps 4

/-- The pump drops the first chunk of the new Start: the write of it with the old epoch is stale. -/
theorem new_data_dropped : ¬∀ d₀ d₁ d n t, (system .otaSlots).Reach d₀ →
    d₀.nimble = .startInvalidate → (system .otaSlots).step (.nimble n) d₀ = some d₁ →
    0 < d₀.comp.otaTotalLen → Board.otaSlots.running.bind Board.otaSlots.nextUpdate = some t →
    d₀.comp.otaTotalLen ≤ t.size →
    (system .otaSlots).Run (Undisturbed d₁.clock d₀.comp.otaTotalLen) d₁ d →
    Kept d₁.clock d₀.comp.otaTotalLen d := by
  intro h
  have hm : (system .otaSlots).Meets (Undisturbed 4 8) (acceptedSector 3 4)
      (after (lingering ++ [.nimble 0])) :=
    ⟨⟨trivial, trivial⟩, _, rfl, ⟨by rintro _ _ _ ⟨⟩, by rintro ⟨⟩⟩, _, rfl,
      ⟨by rintro _ _ _ ⟨⟩; exact ⟨by decide, by decide⟩, by rintro ⟨⟩⟩, _, rfl, trivial⟩
  have hr : (system .otaSlots).Run (Undisturbed 4 8) (after (lingering ++ [.nimble 0]))
      (after (lingering ++ [.nimble 0] ++ acceptedSector 3 4)) :=
    Lib.Lts.exec_run hm rfl
  have hp : (system .otaSlots).Run (Undisturbed 4 8)
      (after (lingering ++ [.nimble 0] ++ acceptedSector 3 4)) (after droppedRun) :=
    pumpSteps_run (n := 4) (fun _ => undisturbed_pump) rfl
  have hk := h _ _ _ 0 ⟨"ota_1", 0x1C0000⟩ (Lib.Lts.run_reach (.init rfl) lingering) rfl rfl
    (by decide) rfl (by decide) (hr.trans hp)
  have hd : (after droppedRun).log.getLast? =
      some (4, .dropped [⟨3, 4⟩, ⟨4, 4⟩]) := rfl
  exact hk.1 4 _ (List.mem_of_getLast? hd) ⟨3, 4⟩ (List.mem_cons_self ..) rfl

/-- With all bytes accepted, and no failure of the IDF, the pump does not come to wait. -/
theorem Transfer.not_quiescent (ht : Transfer True k L d) (hr : (system B).Reach d) (hL0 : 0 < L)
    (hacc : (acceptedAt k d.log).length = L) : ¬Quiescent d := by
  rintro ⟨hpc, hq⟩
  cases ht.phase with
  | old h =>
    rw [h.acc, hq] at hacc
    simp at hacc
    omega
  | fresh h =>
    have hat := h.at_
    rw [hpc] at hat
    exact hat.elim
  | opened h e ho =>
    have hat := ho.at_
    rw [hpc] at hat
    have hz : d.pump.data = [] := by
      by_contra hd
      have := (DevOk.reach hr).holds.mp hd
      rw [hpc] at this
      exact this
    have hlen := congrArg List.length hat.1.1
    have hlt := hat.2
    rw [hacc, hz, hq] at hlen
    simp at hlen
    omega
  | full h e hf =>
    have hat := hf.at_
    rw [hpc] at hat
    exact hat.1 trivial

/-- **A completed transfer is not killed**: if the Start callback ends in a clean state, and Stop
and disconnect meet `StopCond`, then with all bytes accepted the pump does not come to wait with an
empty ring before it has written them, finished and activated; and once it has written one of them
it halts only after that. -/
theorem transfer_completed (hr : (system B).Reach d₀) (hn : d₀.nimble = .startInvalidate)
    (hst : (system B).step (.nimble n) d₀ = some d₁) (hclean : CleanStart d₀)
    (hL0 : 0 < d₀.comp.otaTotalLen) (htgt : B.running.bind B.nextUpdate = some t)
    (hfit : d₀.comp.otaTotalLen ≤ t.size)
    (hrun : (system B).Run (fun d l =>
      Given True d₁.clock d₀.comp.otaTotalLen d l ∧ StopCond d l) d₁ d)
    (hacc : (acceptedAt d₁.clock d.log).length = d₀.comp.otaTotalLen) :
    (Quiescent d → Completed d₁.clock d₀.comp.otaTotalLen d) ∧
    (d.pump.pc = .halted → (∃ kw h data err, (kw, .sink (.ev (.otaWrite h data err))) ∈ d.log ∧
      ∃ c ∈ data, c.born = d₁.clock) → Completed d₁.clock d₀.comp.otaTotalLen d) := by
  obtain ⟨hd, ht⟩ := Transfer.run hr hn hst hclean hL0 htgt hfit hrun
  refine ⟨fun hq => ?_, fun hpc hw => ?_⟩
  · exact absurd hq (ht.not_quiescent hd hL0 hacc)
  · obtain ⟨kw, h', data, err, hm, c, hc, hb⟩ := hw
    cases ht.phase with
    | old h =>
      have := device_written_le hd hm
      exact absurd hb (h.only kw h' data err hm (by omega) c hc)
    | fresh h =>
      have hat := h.at_
      rw [hpc] at hat
      exact hat.elim
    | opened h e ho =>
      have hat := ho.at_
      rw [hpc] at hat
      exact hat.elim
    | full h e hf =>
      have hat := hf.at_
      rw [hpc] at hat
      exact ⟨h, e, hf.begun, hf.acc.symm, hf.len, hat⟩

/-- The Stop command, and the end of its session callback. -/
def stopCommand : List DevLabel := [.ble (.command [2, 0] true), .nimble 0]

/-- All two bytes are in the ring, and the pump has read the declared length. -/
def lengthRead : List DevLabel := wholeStart 2 ++ acceptedSector 1 2 ++ pumpSteps 3

/-- The Stop comes then. -/
def lateStop : List DevLabel := lengthRead ++ stopCommand ++ pumpSteps 12

theorem given_pump : Given True k L d (.pump 4095 .allOk) ∧ StopCond d (.pump 4095 .allOk) :=
  ⟨⟨rfl, rfl, fun _ => ⟨rfl, rfl⟩⟩, trivial⟩

theorem transfer_completed_lateStop : Completed 2 2 (after lateStop) := by
  have hm : (system .otaSlots).Meets (fun d l => Given True 2 2 d l ∧ StopCond d l)
      (acceptedSector 1 2) (after (wholeStart 2)) :=
    ⟨⟨trivial, trivial⟩, _, rfl, ⟨by rintro _ _ _ ⟨⟩, by rintro ⟨⟩⟩, _, rfl,
      ⟨by rintro _ _ _ ⟨⟩; exact ⟨by decide, by decide⟩, by rintro ⟨⟩⟩, _, rfl, trivial⟩
  have hr : (system .otaSlots).Run (fun d l => Given True 2 2 d l ∧ StopCond d l)
      (after (wholeStart 2)) (after (wholeStart 2 ++ acceptedSector 1 2)) :=
    Lib.Lts.exec_run hm rfl
  have hp : (system .otaSlots).Run (fun d l => Given True 2 2 d l ∧ StopCond d l)
      (after (wholeStart 2 ++ acceptedSector 1 2)) (after lengthRead) :=
    pumpSteps_run (n := 3) (fun _ => given_pump) rfl
  have hopen : PastRead (after lengthRead) := .inl ⟨2, rfl⟩
  have hm' : (system .otaSlots).Meets (fun d l => Given True 2 2 d l ∧ StopCond d l) stopCommand
      (after lengthRead) :=
    ⟨⟨⟨by rintro ⟨⟨⟩, -⟩, fun _ => rfl⟩, fun _ => hopen⟩, _, rfl,
      ⟨by rintro _ _ _ ⟨⟩, fun _ => ⟨.inr (.inl ⟨2, rfl⟩), by rintro ⟨⟩⟩⟩, _, rfl, trivial⟩
  have hr' : (system .otaSlots).Run (fun d l => Given True 2 2 d l ∧ StopCond d l)
      (after lengthRead) (after (lengthRead ++ stopCommand)) :=
    Lib.Lts.exec_run hm' rfl
  have hp' : (system .otaSlots).Run (fun d l => Given True 2 2 d l ∧ StopCond d l)
      (after (lengthRead ++ stopCommand)) (after lateStop) :=
    pumpSteps_run (n := 12) (fun _ => given_pump) rfl
  have hc := transfer_completed (B := .otaSlots) (t := ⟨"ota_1", 0x1C0000⟩) (n := 0)
    (Lib.Lts.run_reach (.init rfl) (startUpTo 2)) rfl rfl ⟨rfl, id, fun hx => hx.1 rfl, by decide⟩
    (by decide) rfl (by decide) (((hr.trans hp).trans hr').trans hp') rfl
  refine hc.2 rfl ⟨2, 1, [⟨1, 2⟩, ⟨2, 2⟩], espOk, ?_, ⟨1, 2⟩, List.mem_cons_self .., rfl⟩
  have hw : (after lateStop).log[7]? =
      some (2, .sink (.ev (.otaWrite 1 [⟨1, 2⟩, ⟨2, 2⟩] espOk))) := rfl
  exact List.mem_of_getElem? hw

/-- All two bytes are in the ring, and the pump has not taken them, when the Stop comes. -/
def earlyStop : List DevLabel :=
  wholeStart 2 ++ acceptedSector 1 2 ++ stopCommand ++ pumpSteps 3

/-- The pump drops the whole transfer: it finds `s_armed` clear. -/
theorem transfer_killed : ¬∀ d₀ d₁ d n t, (system .otaSlots).Reach d₀ →
    d₀.nimble = .startInvalidate → (system .otaSlots).step (.nimble n) d₀ = some d₁ →
    0 < d₀.comp.otaTotalLen → Board.otaSlots.running.bind Board.otaSlots.nextUpdate = some t →
    d₀.comp.otaTotalLen ≤ t.size →
    (system .otaSlots).Run (Given True d₁.clock d₀.comp.otaTotalLen) d₁ d →
    (acceptedAt d₁.clock d.log).length = d₀.comp.otaTotalLen → Quiescent d →
    Completed d₁.clock d₀.comp.otaTotalLen d := by
  intro h
  have hm : (system .otaSlots).Meets (Given True 2 2) (acceptedSector 1 2 ++ stopCommand)
      (after (wholeStart 2)) :=
    ⟨trivial, _, rfl, by rintro _ _ _ ⟨⟩, _, rfl,
      by rintro _ _ _ ⟨⟩; exact ⟨by decide, by decide⟩, _, rfl,
      ⟨by rintro ⟨⟨⟩, -⟩, fun _ => rfl⟩, _, rfl, by rintro _ _ _ ⟨⟩, _, rfl, trivial⟩
  have hr : (system .otaSlots).Run (Given True 2 2) (after (wholeStart 2))
      (after (wholeStart 2 ++ acceptedSector 1 2 ++ stopCommand)) :=
    Lib.Lts.exec_run hm rfl
  have hp : (system .otaSlots).Run (Given True 2 2)
      (after (wholeStart 2 ++ acceptedSector 1 2 ++ stopCommand)) (after earlyStop) :=
    pumpSteps_run (n := 3) (fun _ => given_pump.1) rfl
  obtain ⟨hd, e, ⟨t, hb⟩, -⟩ := h _ _ _ 0 ⟨"ota_1", 0x1C0000⟩
    (Lib.Lts.run_reach (.init rfl) (startUpTo 2)) rfl rfl (by decide) rfl (by decide)
    (hr.trans hp) rfl ⟨rfl, rfl⟩
  have hlog : (after earlyStop).log =
      [(1, .sink .poke), (2, .accepted [⟨1, 2⟩, ⟨2, 2⟩]), (2, .dropped [⟨1, 2⟩, ⟨2, 2⟩])] := rfl
  have hb' : _ ∈ (after earlyStop).log := hb
  rw [hlog] at hb'
  simp at hb'

end BleOta.Device
