import BleOta.Component.Defs
import BleOta.Lib.Lts

/-!
# The host tool (`host/ble_ota_host.py`) and its connection to the component

The transfer loop of `run_flash` sends the sectors of the firmware one after the other.
`send_sector` writes the packets of a sector (each write waits for the response of the device),
then waits for the indication that acknowledges it; its waiter is armed before the first write.

* `planSectorPackets`: the packets of a sector.
* `HostPc`: the places of the loop and of `send_sector`.
* `Net`: the host, the component of the device (`nimble_ota.c`), the indications on the way, and the
  buffers that the component has handed to the firmware callback since the Start.
* `system`: a step is a write, the end of a wait, a timeout, or the arrival or the loss of an
  indication. An indication can be late for any time, and can be lost.

A write raises when the device answers with an ATT error, or when the link fails; then the packet
has reached the device or not, and the exception is an `asyncio.TimeoutError` or another one.
-/

namespace BleOta.Host

/-- `SECTOR_SIZE`. -/
abbrev sectorSize : Nat := 4096

/-- `ACK_FRAME_LEN`. -/
abbrev ackFrameLen : Nat := 20

/-- `PACKET_OVERHEAD`. -/
abbrev packetOverhead : Nat := 3

/-- `TAIL_CRC_LEN`. -/
abbrev tailCrcLen : Nat := 2

/-- `ACK_FW_STATUS_SUCCESS`. -/
abbrev ackFwStatusSuccess : Nat := 0x0000

/-- `ACK_FW_STATUS_SECTOR_ERR`. -/
abbrev ackFwStatusSectorErr : Nat := 0x0002

/-- `ACK_RETRIES`. -/
abbrev ackRetries : Nat := 3

/-- The default of `max_jumps` in `send_sector`. -/
abbrev maxJumps : Nat := 8

/-! ## Frames -/

/-- One of the eight rounds of a byte. -/
def crc16Round (crc : Nat) : Nat :=
  if crc &&& 0x8000 ≠ 0 then ((crc <<< 1) ^^^ 0x1021) &&& 0xFFFF else (crc <<< 1) &&& 0xFFFF

/-- `crc16_ccitt`. -/
def crc16Ccitt (data : List UInt8) : Nat :=
  data.foldl (fun crc byte => crc16Round^[8] (crc ^^^ (byte.toNat <<< 8))) 0

/-- `struct.pack("<H", n)`. -/
def packH (n : Nat) : List UInt8 := [UInt8.ofNat n, UInt8.ofNat (n / 256)]

/-- `struct.unpack_from("<H", frame, i)[0]`. -/
def unpackH (frame : List UInt8) (i : Nat) : Nat :=
  (frame.getD i 0).toNat + (frame.getD (i + 1) 0).toNat * 256

/-- `verify_ack_crc`. -/
def verifyAckCrc (frame : List UInt8) : Bool :=
  if frame.length ≠ ackFrameLen then false
  else crc16Ccitt (frame.take (ackFrameLen - 2)) == unpackH frame 18

/-- The payload of the Start command, `b"\x01\x00" + struct.pack("<I", fw_length)`. -/
def startPayload (fwLength : Nat) : List UInt8 :=
  [0x01, 0x00] ++ packH fwLength ++ packH (fwLength / 65536)

/-! ## The packets of a sector -/

/-- The exceptions of `plan_sector_packets`. -/
inductive PyError where
  | valueError (msg : String)
  | structError
  deriving DecidableEq, Repr

/-- The bytes of a packet. -/
def wire (sectorIndex seq : Nat) (payload : List UInt8) : List UInt8 :=
  packH (sectorIndex % 65536) ++ [UInt8.ofNat seq] ++ payload

/-- `struct.pack("<HB", sector_index & 0xFFFF, seq)` and the bytes after it. -/
def packet (sectorIndex seq : Nat) (payload : List UInt8) : Except PyError (List UInt8) :=
  if seq < 256 then .ok (wire sectorIndex seq payload) else .error .structError

/-- The loop of `plan_sector_packets`; each pass takes a byte or more, so the length of the data is
enough `fuel`. -/
def planLoop (chunk sectorIndex : Nat) (data : List UInt8) :
    Nat → Nat → Nat → Except PyError (List (List UInt8))
  | 0, _, _ => .ok []
  | fuel + 1, seq, offset =>
    if offset < data.length then do
      let piece := (data.drop offset).take chunk
      let offset := offset + piece.length
      let remaining := data.length - offset
      let pkt ←
        if remaining = 0 then packet sectorIndex 0xff (piece ++ packH (crc16Ccitt data))
        else packet sectorIndex seq piece
      let packets ← planLoop chunk sectorIndex data fuel (seq + 1) offset
      return pkt :: packets
    else .ok []

/-- The bytes of a sector. -/
def sectorData (fw : List UInt8) (sectorIndex : Nat) : List UInt8 :=
  (fw.drop (sectorIndex * sectorSize)).take sectorSize

/-- `plan_sector_packets`. -/
def planSectorPackets (mtuSize sectorIndex : Nat) (fw : List UInt8) :
    Except PyError (List (List UInt8)) :=
  let chunk := mtuSize - 3 - packetOverhead
  if chunk ≤ tailCrcLen then .error (.valueError ("MTU too small: " ++ toString mtuSize))
  else do
    let data := sectorData fw sectorIndex
    let packets ← planLoop chunk sectorIndex data data.length 0 0
    if packets = [] then return [← packet sectorIndex 0xff (packH (crc16Ccitt data))]
    else return packets

/-! ## The host -/

/-- The future of `_wait_indicate`: armed, timed out, or with a frame. -/
inductive Waiter where
  | armed
  | expired
  | got (frame : List UInt8)
  deriving DecidableEq, Repr

/-- The variables of `send_sector`: `jumps` passes of its `for` loop are left after this one, and of
the packets of the sector `rest` are still to be written. -/
structure SendSector where
  sectorIndex : Nat
  jumps : Nat
  attempt : Nat
  packets : List (List UInt8)
  rest : List (List UInt8)
  waiter : Waiter
  deriving DecidableEq, Repr

/-- Where `run_flash` is: at the test of its loop, in `send_sector`, after the loop with
`transfer_ok`, or left by an exception. -/
inductive HostPc where
  | loop
  | sending (s : SendSector)
  | finished (transferOk : Bool)
  | raised
  deriving DecidableEq, Repr

/-- The variables of the transfer loop. -/
structure HostSt where
  current : Nat
  lastAckedSector : Int
  pc : HostPc
  deriving DecidableEq, Repr

/-- `total_sectors`. -/
def totalSectors (fw : List UInt8) : Nat := (fw.length + sectorSize - 1) / sectorSize

/-- The loop ends. -/
def HostSt.leave (fw : List UInt8) (h : HostSt) : HostSt :=
  { h with pc := .finished (decide (totalSectors fw ≤ h.current)) }

/-- The next pass of the `for` loop of `send_sector`, if `jumps` are left; else `AckTimeout`. -/
def HostSt.pass (fw : List UInt8) (mtuSize sectorIndex jumps : Nat) (h : HostSt) : HostSt :=
  match jumps with
  | 0 => h.leave fw
  | jumps + 1 =>
    match planSectorPackets mtuSize sectorIndex fw with
    | .ok packets => { h with pc := .sending ⟨sectorIndex, jumps, 0, packets, packets, .armed⟩ }
    | .error _ => { h with pc := .raised }

/-- The branch `asyncio.TimeoutError` of `send_sector`. -/
def HostSt.retry (fw : List UInt8) (s : SendSector) (h : HostSt) : HostSt :=
  let attempt := s.attempt + 1
  if ackRetries ≤ attempt then h.leave fw
  else { h with pc := .sending { s with attempt := attempt, rest := s.packets, waiter := .armed } }

/-- What `send_sector` does with a frame. -/
def HostSt.onFrame (fw : List UInt8) (mtuSize : Nat) (s : SendSector) (frame : List UInt8)
    (h : HostSt) : HostSt :=
  if frame.length ≠ ackFrameLen then h.pass fw mtuSize s.sectorIndex s.jumps
  else if ¬verifyAckCrc frame then h.pass fw mtuSize s.sectorIndex s.jumps
  else
    let status := unpackH frame 2
    let extra := unpackH frame 4
    -- the echo of the sector is only logged
    if status = ackFwStatusSuccess then
      { h with
        lastAckedSector := max h.lastAckedSector s.sectorIndex, current := s.sectorIndex + 1,
        pc := .loop }
    else if status = ackFwStatusSectorErr then h.pass fw mtuSize extra s.jumps
    else h.pass fw mtuSize s.sectorIndex s.jumps

/-! ## The host and the device -/

/-- The host, the component, the indications of `RECV_FW` on the way, and the buffers that the
firmware callback got since the Start. -/
structure Net where
  host : HostSt
  comp : Component
  flight : List (List UInt8)
  delivered : List (List UInt8)

/-- After `send_start`: the Start reached the component in the state `c`. -/
def Net.start (fw : List UInt8) (c : Component) : Net where
  host := { current := 0, lastAckedSector := -1, pc := .loop }
  comp := (bleOtaStartWriteChr (startPayload fw.length) true c).1
  flight := []
  delivered := []

/-- The outcome of a write: the device answers, or the link fails. -/
inductive Link where
  | up
  | down (reached timeout : Bool)

/-- A step: the test of the transfer loop, a write, the end of the wait for the acknowledgement, the
timeout of the waiter, the arrival and the loss of the `i`-th indication on the way. -/
inductive NetLabel where
  | enter
  | write (link : Link)
  | wait
  | expire
  | indicate (i : Nat)
  | lose (i : Nat)

namespace Net

/-- The component handles a packet. -/
def handle (pkt : List UInt8) (n : Net) : Net :=
  let out := recvFwWrite pkt n.comp
  let notify (frame : List UInt8) := (espBleOtaNotificationData n.comp .recvFw frame).toList
  let n := { n with comp := out.1 }
  match out.2 with
  | .reply frame _ => { n with flight := n.flight ++ frame.toList.flatMap notify }
  | .sectorEnd _ delivered frame =>
    { n with flight := n.flight ++ notify frame, delivered := n.delivered ++ [delivered] }

/-- The write of a packet. -/
def writePacket (fw : List UInt8) (s : SendSector) (pkt : List UInt8) (rest : List (List UInt8))
    (link : Link) (n : Net) : Net :=
  match link with
  | .up =>
    let pc := if attStatus (recvFwWrite pkt n.comp).2 = 0 then .sending { s with rest := rest }
      else .raised
    { n.handle pkt with host := { n.host with pc := pc } }
  | .down reached timeout =>
    let n := if reached then n.handle pkt else n
    { n with host := if timeout then n.host.retry fw s else { n.host with pc := .raised } }

/-- The waiter gets a frame, if it is armed. -/
def receive (frame : List UInt8) (n : Net) : Net :=
  match n.host.pc with
  | .sending s =>
    if s.waiter = .armed then
      { n with host := { n.host with pc := .sending { s with waiter := .got frame } } }
    else n
  | _ => n

/-- A step of the system. -/
def step (fw : List UInt8) (mtuSize : Nat) : NetLabel → Net → Option Net
  | .enter, n => match n.host.pc with
    | .loop =>
      if n.host.current < totalSectors fw then
        some { n with host := n.host.pass fw mtuSize n.host.current maxJumps }
      else some { n with host := n.host.leave fw }
    | _ => none
  | .write link, n => match n.host.pc with
    | .sending s => match s.rest with
      | [] => none
      | pkt :: rest => some (n.writePacket fw s pkt rest link)
    | _ => none
  | .wait, n => match n.host.pc with
    | .sending s => if s.rest = [] then match s.waiter with
        | .armed => none
        | .expired => some { n with host := n.host.retry fw s }
        | .got frame => some { n with host := n.host.onFrame fw mtuSize s frame }
      else none
    | _ => none
  | .expire, n => match n.host.pc with
    | .sending s =>
      if s.waiter = .armed then
        some { n with host := { n.host with pc := .sending { s with waiter := .expired } } }
      else none
    | _ => none
  | .indicate i, n => match n.flight[i]? with
    | some frame => some (receive frame { n with flight := n.flight.eraseIdx i })
    | none => none
  | .lose i, n =>
    if i < n.flight.length then some { n with flight := n.flight.eraseIdx i } else none

end Net

/-- The transfer of `fw` with the MTU `mtuSize`, after a Start that found the component in any
state. -/
def system (fw : List UInt8) (mtuSize : Nat) : Lib.Lts Net NetLabel :=
  ⟨fun n => ∃ c, n = .start fw c, Net.step fw mtuSize⟩

end BleOta.Host
