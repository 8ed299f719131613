import BleOta.Component.Defs
import BleOta.Lib.Ring

/-!
# The device: component, transport (`main/ble_transport.c`) and sink

Two tasks share the ring buffer, the flags and the sink. The NimBLE host task runs the component,
the firmware callback and the session callback; the pump task moves the data from the ring to the
sink. A step is what one task does to the shared state at once; `PumpPc` and `NimblePc` are the
places between two steps.

* `bleStep`: an event reaches the NimBLE host task. `nimbleStep`: its next step.
* `pumpStep`: the next step of the pump. A label has the answers of the IDF to the call that the
  step starts, and how much of the ring a receive returns.
* `Device.view`: the sink with the pump as its serial caller.

The clock and the log are history: the clock counts the entries into and the ends of the Start
callbacks (it is even between two of them), a byte has the clock of its entry into the ring
(`Cell`), and every entry of the log the clock of its step.
-/

namespace BleOta

open Lib (Ring)

/-- A byte in the ring with the clock of its entry. -/
structure Cell where
  byte : UInt8
  born : Nat
  deriving DecidableEq, Repr

/-- `BLE_TRANSPORT_RINGBUF_SIZE`. -/
abbrev ringbufSize : Nat := 8192

/-- Where `ble_transport_task` is. -/
inductive PumpPc where
  /-- In `xRingbufferReceive`. -/
  | receive
  /-- It has returned `NULL`; before the test of `epoch` and `s_armed`. -/
  | timeout
  /-- It has returned an item; before the test of its size, of `epoch` and `s_armed`. -/
  | arrived
  /-- Before `esp_ble_ota_get_fw_length`. -/
  | readLen
  /-- The length is 0; before `s_open_blocked = true`. -/
  | zeroLen
  /-- Before `ota_sink_session_open`. -/
  | opening (size : Nat)
  /-- It has failed; before `s_open_blocked = true`. -/
  | openFailed
  /-- Before the return of an item that is not written. -/
  | giveBack
  /-- Before `ota_sink_write`. -/
  | writing
  /-- It has returned `err`; before the return of the item. -/
  | wrote (err : OtaSinkErr)
  /-- Before `ota_sink_finish`. -/
  | finishing
  /-- Before `ota_sink_activate`. -/
  | activating
  /-- Before `ota_sink_session_abort`. -/
  | aborting
  /-- In a function of the sink, without the lock. -/
  | inSink (o : SinkCall Cell) (pc : Pc Cell)
  /-- After `esp_restart`. -/
  | halted

/-- The variables of `ble_transport_task`; `data` is the item, empty when there is none. -/
structure Pump where
  epoch : Nat
  fwLen : Nat
  bytesPumped : Nat
  data : List Cell
  pc : PumpPc

/-- Where the NimBLE host task is. -/
inductive NimblePc where
  | idle
  /-- In `ble_ota_transport_recv_cb` before the test of the flags; the sector, what the callback
  got of it, and the answer that follows. -/
  | recvCheck (sector delivered frame : List UInt8)
  /-- Before `xRingbufferSend`. -/
  | recvSend (sector delivered frame : List UInt8)
  /-- In `transport_session_cb(SESSION_START)`: before `s_armed = true`. -/
  | startArm
  /-- Before `s_open_blocked = false`. -/
  | startUnblock
  /-- In `ringbuf_flush` before a receive. -/
  | startFlush
  /-- In `ringbuf_flush` before the return of the item. -/
  | startReturn (item : List Cell)
  /-- Before `ota_sink_epoch_invalidate`. -/
  | startInvalidate
  /-- In `transport_session_cb(SESSION_STOP)`: before `s_armed = false`. -/
  | stopDisarm
  deriving DecidableEq

/-- An entry of the history. -/
inductive DevEv where
  /-- A call of the sink, its return, a call of the IDF, an invalidation. -/
  | sink (e : SinkEntry Cell)
  /-- The ring took the data of the firmware callback. -/
  | accepted (data : List Cell)
  /-- The firmware callback dropped its data. -/
  | refused (data : List UInt8)
  /-- `ringbuf_flush` dropped an item. -/
  | flushed (data : List Cell)
  /-- The pump returned an item that was not written. -/
  | dropped (data : List Cell)
  /-- An answer to the client, and the bytes of the sector that it acknowledges. -/
  | notify (frame sector : List UInt8)

/-- The state of the device. -/
structure Device where
  comp : Component
  armed : Bool
  openBlocked : Bool
  ring : Ring Cell ringbufSize
  sink : SinkSt
  pump : Pump
  nimble : NimblePc
  clock : Nat
  log : List (Nat × DevEv)

/-- The device after `ble_ota_transport_init` and the registration of the callbacks. -/
def Device.init : Device where
  comp := .zero
  armed := false
  openBlocked := false
  ring := .empty
  sink := .init
  pump := ⟨0, 0, 0, [], .receive⟩
  nimble := .idle
  clock := 0
  log := []

/-- What reaches the NimBLE host task: a write to the firmware or to the command characteristic
(with the outcome of `malloc`), a change of the subscriptions, the end of the connection. -/
inductive BleEvent where
  | packet (om : List UInt8)
  | command (om : List UInt8) (malloc : Bool)
  | subscribe (n : NotificationCheck)
  | disconnect

/-- A step: of an event, of the NimBLE host task, of the pump. -/
inductive DevLabel where
  | ble (e : BleEvent)
  | nimble (n : Nat)
  | pump (n : Nat) (idf : Idf)

namespace Device

/-- The entries `es` at the present clock. -/
def emit (d : Device) (es : List DevEv) : Device := { d with log := d.log ++ es.map (d.clock, ·) }

/-- The entry for an answer, if the client has subscribed. -/
def notified (d : Device) (char : OtaChar) (frame sector : List UInt8) : List DevEv :=
  (espBleOtaNotificationData d.comp char frame).toList.map (.notify · sector)

/-! ## The NimBLE host task -/

/-- An event of the BLE side. -/
def bleStep (e : BleEvent) (d : Device) : Option Device :=
  if d.nimble ≠ .idle then none
  else match e with
    | .packet om =>
      let out := recvFwWrite om d.comp
      let d := { d with comp := out.1 }
      match out.2 with
      | .reply frame _ => some (d.emit (frame.toList.flatMap (d.notified .recvFw · [])))
      | .sectorEnd sector delivered frame =>
        some { d with nimble := .recvCheck sector delivered frame }
    | .command om malloc =>
      let out := bleOtaStartWriteChr om malloc d.comp
      let d := { d with comp := out.1 }
      match out.2 with
      | .started frame => some { d.emit (d.notified .cmd frame []) with nimble := .startArm }
      | .stopped frame => some { d.emit (d.notified .cmd frame []) with nimble := .stopDisarm }
      | .ignored => some d
    | .subscribe n => some { d with comp := { d.comp with otaNotification := n } }
    | .disconnect => some { d with armed := false }

/-- The data of the firmware callback, as cells. -/
def cells (d : Device) (data : List UInt8) : List Cell := data.map (⟨·, d.clock⟩)

/-- The next step of the NimBLE host task; `n` bounds what a receive returns. -/
def nimbleStep (n : Nat) (d : Device) : Option Device :=
  match d.nimble with
  | .idle => none
  | .recvCheck sector delivered frame =>
    if d.armed ∧ ¬d.openBlocked then some { d with nimble := .recvSend sector delivered frame }
    else some
      { d.emit (.refused delivered :: d.notified .recvFw frame sector) with nimble := .idle }
  | .recvSend sector delivered frame =>
    match d.ring.send (d.cells delivered) with
    | some ring => some
        { d.emit (.accepted (d.cells delivered) :: d.notified .recvFw frame sector) with
          ring := ring, nimble := .idle }
    | none => some
        { d.emit (.refused delivered :: d.notified .recvFw frame sector) with nimble := .idle }
  | .startArm => some { d with armed := true, clock := d.clock + 1, nimble := .startUnblock }
  | .startUnblock => some { d with openBlocked := false, nimble := .startFlush }
  | .startFlush =>
    match d.ring.receive n with
    | some (item, ring) => some { d with ring := ring, nimble := .startReturn item }
    | none => some { d with nimble := .startInvalidate }
  | .startReturn item => some
      { d.emit [.flushed item] with ring := d.ring.giveBack, nimble := .startFlush }
  | .startInvalidate => some
      { d.emit [.sink .poke] with
        sink := invalidate d.sink, clock := d.clock + 1, nimble := .idle }
  | .stopDisarm => some { d with armed := false, nimble := .idle }

/-! ## The pump -/

end Device

/-- The pump without a session, at the top of its loop. -/
def Pump.reset (p : Pump) : Pump :=
  { p with epoch := 0, fwLen := 0, bytesPumped := 0, pc := .receive }

/-- The pump after a section of the call `o` of the sink. -/
def Pump.after (p : Pump) (o : SinkCall Cell) : Pc Cell ⊕ Ret → Pump
  | .inl pc => { p with pc := .inSink o pc }
  | .inr .restart => { p with pc := .halted }
  | .inr (.ret err e) => match o.1 with
    | .sessionOpen cfg =>
      if err = .ok then
        let epoch := e.getD 0
        { p with
          epoch := epoch, fwLen := (cfg.map (·.imageSize)).getD 0, bytesPumped := 0,
          pc := if epoch ≠ 0 then .writing else .giveBack }
      else { p with pc := .openFailed }
    | .write _ _ => { p with pc := .wrote err }
    | .finish _ => if err = .ok then { p with pc := .activating } else p.reset
    | .activate _ _ => p.reset
    | .sessionAbort _ => p.reset

namespace Device

/-- The entries of a section of the call `o` of the sink. -/
def sectionEntries (o : SinkCall Cell) (out : Out Cell) : List (SinkEntry Cell) :=
  out.2.1.map .ev ++ Lib.Code.returned o out.2.2

/-- The pump does a section of the call `o` of the sink, after the entries `es`. -/
def doSection (d : Device) (o : SinkCall Cell) (es : List (SinkEntry Cell)) (out : Out Cell) :
    Device :=
  { d.emit ((es ++ sectionEntries o out).map .sink) with
    sink := out.1, pump := d.pump.after o out.2.2 }

/-- The pump calls the sink. -/
def callSink (B : Board) (op : Op Cell) (idf : Idf) (d : Device) : Device :=
  d.doSection (op, idf) [.call (op, idf)] (otaSinkEnter B op idf d.sink)

/-- The next step of the pump; `n` bounds what a receive returns, `idf` answers the call of the sink
that the step starts. -/
def pumpStep (B : Board) (n : Nat) (idf : Idf) (d : Device) : Option Device :=
  let p := d.pump
  match p.pc with
  | .receive =>
    match d.ring.receive n with
    | some (item, ring) => some
        { d with ring := ring, pump := { p with data := item, pc := .arrived } }
    | none => some { d with pump := { p with pc := .timeout } }
  | .timeout =>
    if p.epoch ≠ 0 ∧ ¬d.armed then some { d with pump := { p with pc := .aborting } }
    else some { d with pump := { p with pc := .receive } }
  | .arrived =>
    if p.data.length = 0 then
      some { d with ring := d.ring.giveBack, pump := { p with pc := .receive } }
    else if p.epoch = 0 ∧ d.armed then some { d with pump := { p with pc := .readLen } }
    else if p.epoch ≠ 0 then some { d with pump := { p with pc := .writing } }
    else some { d with pump := { p with pc := .giveBack } }
  | .readLen =>
    if d.comp.otaTotalLen = 0 then some { d with pump := { p with pc := .zeroLen } }
    else some { d with pump := { p with pc := .opening d.comp.otaTotalLen } }
  | .zeroLen => some { d with openBlocked := true, pump := { p with pc := .giveBack } }
  | .opening size => some (d.callSink B (.sessionOpen (some ⟨size, false⟩)) idf)
  | .openFailed => some
      { d with openBlocked := true, pump := { p with epoch := 0, pc := .giveBack } }
  | .giveBack => some
      { d.emit [.dropped p.data] with
        ring := d.ring.giveBack, pump := { p with data := [], pc := .receive } }
  | .writing => some (d.callSink B (.write p.epoch (some p.data)) idf)
  | .wrote err =>
    let d := { d with ring := d.ring.giveBack }
    if err = .ok ∨ err = .nvs then
      let pumped := u32 (p.bytesPumped + u32 p.data.length)
      some { d with pump := { p with
        bytesPumped := pumped, data := [],
        pc := if 0 < p.fwLen ∧ p.fwLen ≤ pumped then .finishing else .receive } }
    else some { d.emit [.dropped p.data] with pump := { p with data := [], pc := .aborting } }
  | .finishing => some (d.callSink B (.finish p.epoch) idf)
  | .activating => some (d.callSink B (.activate p.epoch true) idf)
  | .aborting => some (d.callSink B (.sessionAbort p.epoch) idf)
  | .inSink o pc => some (d.doSection o [] (otaSinkResume o.2 pc d.sink))
  | .halted => none

/-! ## The system -/

/-- A step of the device. -/
def step (B : Board) : DevLabel → Device → Option Device
  | .ble e => bleStep e
  | .nimble n => nimbleStep n
  | .pump n idf => pumpStep B n idf

/-- The device on the board `B`. -/
def system (B : Board) : Lib.Lts Device DevLabel := ⟨(· = .init), step B⟩

/-- The place of the pump as the caller of the sink. -/
def place (d : Device) : Lib.Place (SinkCall Cell) (Pc Cell) :=
  match d.pump.pc with
  | .inSink o pc => .busy o pc
  | .halted => .gone
  | _ => .idle

/-- The entry of the sink. -/
def sinkEntry : DevEv → Option (SinkEntry Cell)
  | .sink e => some e
  | _ => none

/-- The entries of the sink in a history. -/
def sinkLog (log : List (Nat × DevEv)) : List (SinkEntry Cell) := log.filterMap (sinkEntry ·.2)

/-- The sink with its caller and its log. -/
def view (d : Device) : SinkSys Cell := ⟨d.sink, d.place, sinkLog d.log⟩

end Device

end BleOta
