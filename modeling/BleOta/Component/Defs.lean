import BleOta.Sink.Defs

/-!
# The BLE OTA component (`ble_ota/src/nimble_ota.c`)

The component runs in the NimBLE host task: it puts the packets of a sector together, hands the
sector to the firmware callback, and answers with a 20-byte frame. The build has neither
`CONFIG_PRE_ENC_OTA` nor `CONFIG_OTA_WITH_PROTOCOMM`.

* `espBleOtaWriteChr`: a firmware packet. `PacketOut` says what the source does after it: it answers
  with an error, or it ends a sector.
* `bleOtaStartWriteChr`: a command (Start, Stop).
* `fwBuf` is `fw_buf` with `fw_buf_offset`: the bytes below the offset; `none` is `NULL`.
-/

namespace BleOta

/-- `BUF_LENGTH`, which `ota_block_size` always is. -/
def otaBlockSize : Nat := 4098

/-- `SECTOR_END_ID`: the length of the checksum at the end of a tail packet. -/
def sectorEndId : Nat := 2

/-- `esp_ble_ota_char_t`. -/
inductive OtaChar where
  | recvFw
  | otaStatus
  | cmd
  | cus
  | invalid
  deriving DecidableEq, Repr

/-- `esp_ble_ota_notification_check_t`. -/
structure NotificationCheck where
  recvFw : Bool
  processBar : Bool
  command : Bool
  customer : Bool
  deriving DecidableEq, Repr

/-- The file-scope variables of the component. -/
structure Component where
  startOta : Bool
  curSector : Nat
  curPacket : Nat
  sectorSequenceError : Bool
  fwBuf : Option (List UInt8)
  otaTotalLen : Nat
  otaNotification : NotificationCheck
  deriving DecidableEq, Repr

/-- The component at boot. -/
def Component.zero : Component :=
  ⟨false, 0, 0, false, none, 0, ⟨false, false, false, false⟩⟩

/-! ## Frames -/

/-- One of the eight rounds of a byte. -/
def crc16Round (crc : BitVec 16) : BitVec 16 :=
  if crc.msb then (crc <<< 1) ^^^ 0x1021#16 else crc <<< 1

/-- `crc16_ccitt`. -/
def crc16Ccitt (buf : List UInt8) : BitVec 16 :=
  buf.foldl (fun (crc : BitVec 16) (b : UInt8) =>
    crc16Round^[8] (crc ^^^ ((b.toBitVec.setWidth 16) <<< 8))) 0#16

/-- A 20-byte answer (`cmd_ack`): the first six bytes, zeros, and the checksum of the 18 bytes. -/
def cmdAck (b0 b1 b2 b3 b4 b5 : UInt8) : List UInt8 :=
  let body := [b0, b1, b2, b3, b4, b5] ++ List.replicate 12 0
  let crc := crc16Ccitt body
  body ++ [UInt8.ofNat crc.toNat, UInt8.ofNat (crc.toNat / 256)]

/-- The answer to a sector: the sector of the packet and the status 0. -/
def successAck (b0 b1 : UInt8) : List UInt8 := cmdAck b0 b1 0x00 0x00 0x00 0x00

/-- The answer that asks for the sector `curSector`: the status 2. -/
def sectorNack (b0 b1 : UInt8) (curSector : Nat) : List UInt8 :=
  cmdAck b0 b1 0x02 0x00 (UInt8.ofNat curSector) (UInt8.ofNat (curSector / 256))

/-- `esp_ble_ota_notification_data`: the frame, if the client has subscribed. -/
def espBleOtaNotificationData (c : Component) (char : OtaChar) (frame : List UInt8) :
    Option (List UInt8) :=
  let enabled := match char with
    | .recvFw => c.otaNotification.recvFw
    | .otaStatus => c.otaNotification.processBar
    | .cmd => c.otaNotification.command
    | .cus => c.otaNotification.customer
    | .invalid => false
  if enabled then some frame else none

/-! ## Firmware packets -/

/-- What follows a packet: an answer (if there is one) with the return code, or the end of a sector
with all its bytes, the bytes for the firmware callback and the answer. -/
inductive PacketOut where
  | reply (frame : Option (List UInt8)) (err : EspErr)
  | sectorEnd (sector delivered frame : List UInt8)
  deriving DecidableEq, Repr

/-- The sector restarts at packet 0, with an empty buffer. -/
def Component.restartSector (c : Component) (sequenceError : Bool) : Component :=
  { c with
    curPacket := 0, fwBuf := c.fwBuf.map fun _ => [], sectorSequenceError := sequenceError }

/-- The bytes of a sector that the firmware callback gets. -/
def deliveredBytes (sector : List UInt8) : List UInt8 :=
  if sector.length < otaBlockSize then sector else sector.take 4096

/-- The part of `esp_ble_ota_write_chr` after the label `write_ota_data`. -/
def writeOtaData (om : List UInt8) (recvPacket : UInt8) (c : Component) : Component × PacketOut :=
  let c := if recvPacket ≠ 0xff then { c with sectorSequenceError := false } else c
  let copyLen := om.length - 3
  if recvPacket = 0xff ∧ copyLen < sectorEndId then
    ({ c with fwBuf := c.fwBuf.map fun _ => [] }, .reply none espErrInvalidSize)
  else
    let copyLen := if recvPacket = 0xff then copyLen - sectorEndId else copyLen
    match c.fwBuf with
    | none => (c, .reply none espErrInvalidState)
    | some buf =>
      if otaBlockSize < buf.length + copyLen then
        ({ c with fwBuf := some [] }, .reply none espErrInvalidSize)
      else
        let buf := buf ++ (om.drop 3).take copyLen
        if recvPacket = 0xff then
          ({ c with
              curPacket := 0, curSector := u32 (c.curSector + 1), fwBuf := some [],
              sectorSequenceError := false },
            .sectorEnd buf (deliveredBytes buf) (successAck (om.getD 0 0) (om.getD 1 0)))
        else
          ({ c with curPacket := u32 (c.curPacket + 1), fwBuf := some buf }, .reply none espOk)

/-- `esp_ble_ota_write_chr`. -/
def espBleOtaWriteChr (om : List UInt8) (c : Component) : Component × PacketOut :=
  if om.length < 3 then (c, .reply none espErrInvalidSize)
  else
    let b0 := om.getD 0 0
    let b1 := om.getD 1 0
    let recvSector := b0.toNat + b1.toNat * 256
    let recvPacket := om.getD 2 0
    if recvSector ≠ c.curSector ∧ ¬(b0 = 0xff ∧ b1 = 0xff) then
      (c.restartSector false, .reply (some (sectorNack b0 b1 c.curSector)) espErrInvalidState)
    else if recvPacket ≠ UInt8.ofNat c.curPacket then
      if recvPacket = 0xff then
        if c.sectorSequenceError then
          (c.restartSector false, .reply (some (sectorNack b0 b1 c.curSector)) espErrInvalidState)
        else writeOtaData om recvPacket c
      else (c.restartSector true, .reply none espErrInvalidState)
    else writeOtaData om recvPacket c

/-- The write of a packet to `RECV_FW_CHAR` in `ble_ota_gatt_handler`: without a Start it is
ignored. -/
def recvFwWrite (om : List UInt8) (c : Component) : Component × PacketOut :=
  if c.startOta then espBleOtaWriteChr om c else (c, .reply none espOk)

/-- What `ble_ota_gatt_handler` returns for a packet: `BLE_ATT_ERR_UNLIKELY` or 0. -/
def attStatus : PacketOut → Nat
  | .reply _ err => if err ≠ espOk then 0x0e else 0
  | .sectorEnd .. => 0

/-! ## Commands -/

/-- What follows a command: its answer, then the session callback (`SESSION_START`,
`SESSION_STOP`); or nothing. -/
inductive CommandOut where
  | started (frame : List UInt8)
  | stopped (frame : List UInt8)
  | ignored
  deriving DecidableEq, Repr

/-- `ble_ota_start_write_chr`; `malloc` says if the sector buffer is allocated. -/
def bleOtaStartWriteChr (om : List UInt8) (malloc : Bool) (c : Component) :
    Component × CommandOut :=
  if om.getD 0 0 = 0x01 ∧ om.getD 1 0 = 0x00 then
    let len := (om.getD 2 0).toNat + (om.getD 3 0).toNat * 256 + (om.getD 4 0).toNat * 256 * 256 +
      (om.getD 5 0).toNat * 256 * 256 * 256
    ({ c with
        startOta := true, otaTotalLen := u32 len, sectorSequenceError := false, curSector := 0,
        curPacket := 0, fwBuf := if malloc then some [] else none },
      .started (cmdAck 0x03 0x00 0x01 0x00 0x00 0x00))
  else if om.getD 0 0 = 0x02 ∧ om.getD 1 0 = 0x00 then
    ({ c with
        startOta := false, otaTotalLen := 0, sectorSequenceError := false, curSector := 0,
        curPacket := 0, fwBuf := none },
      .stopped (cmdAck 0x03 0x00 0x02 0x00 0x00 0x00))
  else (c, .ignored)

end BleOta
