import BleOta.Device.Frames
import BleOta.Host.Defs

/-!
# The host tool and the whole device

`Host.Net` has the component of the device only. `World` has the device: the component, the ring
buffer, the pump and the sink. It starts with the Start of `run_flash` in the NimBLE host task; its
session callback runs while the host may already write.

* A packet reaches the component when the NimBLE host task is idle (`handle`); the indication of a
  sector is on the way when the firmware callback has returned (`nimbleStep`).
* The host does not wait for the end of the handler, which is more than it can do.
* After the loop come the Stop and the end of the connection.
* After `esp_restart` nothing on the device runs.
-/

namespace BleOta

open Host (HostSt NetLabel Link SendSector)

/-- The host, the device, the indications of `RECV_FW` on the way, and the buffers that the
component has given to the firmware callback since the Start. -/
structure World where
  host : HostSt
  dev : Device
  flight : List (List UInt8)
  delivered : List (List UInt8)

/-- A step: of the host, of the NimBLE host task, of the pump; the Stop, and the end of the
connection. -/
inductive WorldLabel where
  | host (l : NetLabel)
  | nimble (n : Nat)
  | pump (n : Nat) (idf : Idf)
  | stop
  | disconnect

/-- What the firmware callback gets. -/
def PacketOut.delivered : PacketOut → List (List UInt8)
  | .reply .. => []
  | .sectorEnd _ delivered _ => [delivered]

namespace World

/-- The event `e` reaches the device, if it runs and its NimBLE host task is idle. -/
def ble (e : BleEvent) (w : World) : Option Device :=
  match w.dev.pump.pc with
  | .halted => none
  | _ => w.dev.bleStep e

/-- A packet reaches the component. -/
def handle (pkt : List UInt8) (w : World) : Option World :=
  (w.ble (.packet pkt)).map fun d =>
    { w with
      dev := d, flight := w.flight ++ w.dev.sent d,
      delivered := w.delivered ++ (recvFwWrite pkt w.dev.comp).2.delivered }

/-- The write of a packet. -/
def writePacket (fw : List UInt8) (s : SendSector) (pkt : List UInt8) (rest : List (List UInt8))
    (w : World) : Link → Option World
  | .up =>
    let pc := if attStatus (recvFwWrite pkt w.dev.comp).2 = 0 then .sending { s with rest := rest }
      else .raised
    (w.handle pkt).map fun w' => { w' with host := { w.host with pc := pc } }
  | .down reached timeout =>
    let host := if timeout then w.host.retry fw s else { w.host with pc := .raised }
    (if reached then w.handle pkt else some w).map fun w' => { w' with host := host }

/-- A step of the host. Only its writes need the device. -/
def hostStep (fw : List UInt8) (mtuSize : Nat) (l : NetLabel) (w : World) : Option World :=
  match l with
  | .write link => match w.host.pc with
    | .sending s => match s.rest with
      | [] => none
      | pkt :: rest => w.writePacket fw s pkt rest link
    | _ => none
  | l => (Host.Net.step fw mtuSize l ⟨w.host, w.dev.comp, w.flight, w.delivered⟩).map fun n =>
      { w with host := n.host, flight := n.flight }

/-- A step of the NimBLE host task. -/
def nimbleStep (n : Nat) (w : World) : Option World :=
  match w.dev.pump.pc with
  | .halted => none
  | _ => (w.dev.nimbleStep n).map fun d =>
      { w with dev := d, flight := w.flight ++ w.dev.sent d }

/-- A step of the system. `run_flash` sends the Stop after a transfer that is complete, and ends the
connection in any case. -/
def step (B : Board) (fw : List UInt8) (mtuSize : Nat) : WorldLabel → World → Option World
  | .host l, w => w.hostStep fw mtuSize l
  | .nimble n, w => w.nimbleStep n
  | .pump n idf, w => (w.dev.pumpStep B n idf).map fun d => { w with dev := d }
  | .stop, w =>
    if w.host.pc = .finished true then
      (w.ble (.command [0x02, 0x00] true)).map fun d => { w with dev := d }
    else none
  | .disconnect, w => match w.host.pc with
    | .finished _ | .raised => (w.ble .disconnect).map fun d => { w with dev := d }
    | _ => none

/-- The Start of `send_start` has reached the device in the state `d₀`. -/
def Starts (B : Board) (fw : List UInt8) (w : World) : Prop :=
  ∃ d₀ d, (Device.system B).Reach d₀ ∧ d₀.pump.pc ≠ .halted ∧
    d₀.bleStep (.command (Host.startPayload fw.length) true) = some d ∧
    w = ⟨⟨0, -1, .loop⟩, d, [], []⟩

/-- The transfer of `fw` with the MTU `mtuSize` to the device on the board `B`. -/
def system (B : Board) (fw : List UInt8) (mtuSize : Nat) : Lib.Lts World WorldLabel :=
  ⟨Starts B fw, step B fw mtuSize⟩

end World

end BleOta
