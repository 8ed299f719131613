import BleOta.Device.Frames

/-!
# The GATT server (`ble_ota/src/nimble_ota.c`)

The component finds the characteristic of an access by its attribute handle in `ota_handle_table`,
which `esp_ble_ota_gap_event` fills at a `CONNECT`. The events of the stack come one after the other
in the NimBLE host task, where the firmware callback and the session callback run too: `Server` has
the device, and a step of its other tasks is a step of the device.

* `findOtaCharAndDesrByHandle`: the characteristic of a handle.
* `Server.access`: `ble_ota_gatt_handler`. `Server.gap`: `esp_ble_ota_gap_event`.
* `attCode`: what `ble_ota_gatt_handler` returns.

`esp_ble_ota_write_chr` and `ble_ota_start_write_chr` look the characteristic up again, by
`attribute_handle`, for their answers; the handle and the table are the ones of the handler.
-/

namespace BleOta

/-- The attribute handles that the stack gave to the characteristics (`receive_fw_val`,
`ota_status_val`, `command_val`, `custom_val`). -/
structure Handles where
  recvFw : Nat
  otaStatus : Nat
  cmd : Nat
  cus : Nat
  deriving DecidableEq, Repr

/-- The stack gives each characteristic its own handle, and 0 to none. -/
structure Handles.Proper (v : Handles) : Prop where
  distinct : [v.recvFw, v.otaStatus, v.cmd, v.cus].Nodup
  nonzero : 0 ∉ [v.recvFw, v.otaStatus, v.cmd, v.cus]

/-- `find_ota_char_and_desr_by_handle`: the last match. -/
def findOtaCharAndDesrByHandle (table : Handles) (handle : Nat) : OtaChar :=
  let ret := if handle = table.recvFw then .recvFw else .invalid
  let ret := if handle = table.otaStatus then .otaStatus else ret
  let ret := if handle = table.cmd then .cmd else ret
  if handle = table.cus then .cus else ret

/-- The subscription of a `BLE_GAP_EVENT_SUBSCRIBE`. -/
def NotificationCheck.enable (n : NotificationCheck) : OtaChar → NotificationCheck
  | .recvFw => { n with recvFw := true }
  | .otaStatus => { n with processBar := true }
  | .cmd => { n with command := true }
  | .cus => { n with customer := true }
  | .invalid => n

/-- The flag of a characteristic. -/
def NotificationCheck.enabled (n : NotificationCheck) : OtaChar → Bool
  | .recvFw => n.recvFw
  | .otaStatus => n.processBar
  | .cmd => n.command
  | .cus => n.customer
  | .invalid => false

/-- A frame with the connection and the attribute that it is sent to. -/
structure Notification where
  connHandle : Nat
  attrHandle : Nat
  frame : List UInt8
  deriving DecidableEq, Repr

/-- The device with the variables of its GATT server, and the frames that are sent. -/
structure Server where
  dev : Device
  otaHandleTable : Handles
  connectionHandle : Nat
  attributeHandle : Nat
  sent : List Notification

/-- The server after `esp_ble_ota_host_init`. -/
def Server.init : Server := ⟨.init, ⟨0, 0, 0, 0⟩, 0, 0, []⟩

/-- `ctxt->op` of an access: `WRITE_CHR` (with the data, and the outcome of `malloc`), `READ_CHR`,
or another. -/
inductive AccessOp where
  | write (om : List UInt8) (malloc : Bool)
  | read
  | other

/-- What the stack reports: an access to an attribute, and the GAP events. `SUBSCRIBE` has the new
state of the notifications of the client (`cur_notify`), which the source only logs. -/
inductive StackEvent where
  | access (attrHandle : Nat) (op : AccessOp)
  | connect (status connHandle : Nat)
  | disconnect
  | subscribe (attrHandle : Nat) (curNotify : Bool)
  | otherGap

/-- A step: an event, a step of the NimBLE host task, a step of the pump. -/
inductive ServerLabel where
  | event (e : StackEvent)
  | nimble (n : Nat)
  | pump (n : Nat) (idf : Idf)

namespace Server

/-- The device comes to `d`: its new frames go to the connection and to the attribute of the
server. -/
def moveTo (s : Server) (d : Device) : Server :=
  { s with
    dev := d, sent := s.sent ++ (s.dev.sent d).map (⟨s.connectionHandle, s.attributeHandle, ·⟩) }

/-- `ble_ota_gatt_handler`. -/
def access (attrHandle : Nat) (op : AccessOp) (s : Server) : Option Server :=
  let s := { s with attributeHandle := attrHandle }
  match op with
  | .write om malloc => match findOtaCharAndDesrByHandle s.otaHandleTable attrHandle with
    | .recvFw => (s.dev.bleStep (.packet om)).map s.moveTo
    | .cmd => (s.dev.bleStep (.command om malloc)).map s.moveTo
    | .otaStatus | .cus | .invalid => some s
  | .read | .other => some s

/-- What `ble_ota_gatt_handler` returns. -/
def attCode (attrHandle : Nat) (op : AccessOp) (s : Server) : Nat :=
  match op with
  | .write om _ => match findOtaCharAndDesrByHandle s.otaHandleTable attrHandle with
    | .recvFw => attStatus (recvFwWrite om s.dev.comp).2
    | _ => 0
  | .read => 0
  | .other => 0x0e

/-- `esp_ble_ota_gap_event`, for a server with the handles `v`. -/
def gap (v : Handles) (s : Server) : StackEvent → Option Server
  | .connect status connHandle => some
      { s with
        connectionHandle := if status = 0 then connHandle else s.connectionHandle
        otaHandleTable := v }
  | .disconnect => (s.dev.bleStep .disconnect).map s.moveTo
  | .subscribe attrHandle _ =>
    let n := s.dev.comp.otaNotification.enable
      (findOtaCharAndDesrByHandle s.otaHandleTable attrHandle)
    (s.dev.bleStep (.subscribe n)).map s.moveTo
  | _ => some s

/-- The event reaches the NimBLE host task. The attribute handle 0 is reserved. -/
def event (v : Handles) (s : Server) (e : StackEvent) : Option Server :=
  if s.dev.nimble ≠ .idle then none
  else match e with
    | .access attrHandle op => if attrHandle = 0 then none else s.access attrHandle op
    | .subscribe attrHandle cur =>
      if attrHandle = 0 then none else s.gap v (.subscribe attrHandle cur)
    | e => s.gap v e

/-- A step of the server. -/
def step (B : Board) (v : Handles) : ServerLabel → Server → Option Server
  | .event e, s => s.event v e
  | .nimble n, s => (s.dev.nimbleStep n).map s.moveTo
  | .pump n idf, s => (s.dev.pumpStep B n idf).map s.moveTo

/-- The server on the board `B`. -/
def system (B : Board) (v : Handles) : Lib.Lts Server ServerLabel := ⟨(· = .init), step B v⟩

end Server

end BleOta
