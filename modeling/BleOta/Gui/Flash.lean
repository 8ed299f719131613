import BleOta.Host.Flash

/-!
# The flash operation of the GUI (`host/ble_ota_gui.py`)

`OtaWorker.op_flash` does the session of `run_flash` once more, as a coroutine of the worker that
pushes events to the queue of the GUI. Stop sets a flag that the coroutine tests before each
connection, each sector and each poll.

* `Push`: the events; `banner`: what `OtaGui._dispatch` shows for them.
* `OpFlash`: the coroutine; the statements between two `await`s are one step.
* `opFlash`: the coroutine as a system, whose steps are the answers and the request of Stop.
-/

namespace BleOta.Gui

open Host

/-! ## Events -/

/-- The names of the event `phase`. -/
inductive Phase where
  | connect
  | handshake
  | transfer
  | stop
  | reboot
  deriving DecidableEq, Repr

/-- The reason of `fail`: a connection that failed, or `AckTimeout`. -/
inductive FailReason where
  | connection (e : Exc)
  | ackTimeout
  deriving DecidableEq, Repr

/-- The events that the worker pushes during a flash. -/
inductive Push where
  | fwLoaded (size sectors : Nat)
  | phase (name : Phase)
  | cancelled
  | log (e : Exc)
  | fail (reason : FailReason)
  | mtu (mtu : Nat)
  | startOk
  | done (ok dry : Bool)
  | sectorCurrent (sector : Nat)
  | progress (doneBytes total sector sectors : Nat)
  | stopped
  | rebootOk
  | rebootTimeout
  | error (e : Exc)
  deriving DecidableEq, Repr

/-- The texts of the banner. -/
inductive Banner where
  /-- The name of the phase. -/
  | phase (name : Phase)
  /-- The dry run has passed. -/
  | dryRunPassed
  /-- SUCCESS: the upgrade has succeeded, the device is rebooting. -/
  | success
  /-- SUCCESS: the device has rebooted and is online. -/
  | successOnline
  /-- FAILED, with the reason. -/
  | failed (reason : FailReason)
  /-- Stopped. -/
  | stopped
  /-- ERROR: an exception in the worker. -/
  | error
  deriving DecidableEq, Repr

/-- The banner that `_dispatch` shows for an event; `done` is shown without a look at `ok`. -/
def banner : Push → Option Banner
  | .phase name => some (.phase name)
  | .done _ dry => some (if dry then .dryRunPassed else .success)
  | .fail reason => some (.failed reason)
  | .cancelled | .stopped => some .stopped
  | .rebootOk => some .successOnline
  | .error _ => some .error
  | _ => none

/-- A banner that says SUCCESS was shown. -/
def ShowsSuccess (pushed : List Push) : Prop :=
  ∃ p ∈ pushed, banner p = some .success ∨ banner p = some .successOnline

/-! ## `op_flash` -/

/-- Where `op_flash` waits: `connecting` and `retrying` with the `reconnect_budget` that is left,
`sending` in `send_sector`, `polling` in a scan of `_poll_reboot` (with the passes that are left
after it), `closing` in the final `disconnect` (with the exception that goes on after it). -/
inductive FlashPc where
  | connecting (budget : Nat)
  | retrying (budget : Nat)
  | starting
  | dryStopping
  | sending (current : Nat)
  | aborting
  | stopping
  | polling (left : Nat)
  | closing (e : Option Exc)
  | returned
  deriving DecidableEq, Repr

/-- The coroutine, the flag of Stop and the events pushed so far. -/
structure OpFlash where
  pc : FlashPc
  cancel : Bool
  pushed : List Push
  deriving DecidableEq, Repr

/-- A step: an answer, a scan of `_poll_reboot`, the end of `disconnect`, and `request_cancel`. -/
inductive FlashLabel where
  | answer (a : Answer)
  | poll (r : Scan)
  | disconnected
  | cancel

/-- `DEVICE_NAME_PREFIX`. -/
abbrev deviceNamePrefix : List Char := ['C', '6', '-', 'O', 'T', 'A', '-']

/-- The name that the component advertises by default. -/
abbrev fallbackName : List Char :=
  ['n', 'i', 'm', 'b', 'l', 'e', '-', 'b', 'l', 'e', '-', 'o', 't', 'a']

/-- `scan_devices`; the order of the rows does not matter here. -/
def scanDevices (scan : Scan) : Except Exc (List Adv) :=
  scan.map fun found =>
    found.filter fun adv => deviceNamePrefix.isPrefixOf adv.name || adv.name == fallbackName

namespace OpFlash

/-- `_push`. -/
def push (p : Push) (s : OpFlash) : OpFlash := { s with pushed := s.pushed ++ [p] }

/-- The coroutine waits at `pc`. -/
def goto (pc : FlashPc) (s : OpFlash) : OpFlash := { s with pc := pc }

/-- The top of the connection loop. -/
def connectLoop (budget : Nat) (s : OpFlash) : OpFlash :=
  if s.cancel then (s.push .cancelled).goto .returned else s.goto (.connecting budget)

/-- The top of the transfer loop, and what follows it. -/
def transferLoop (fw : List UInt8) (current : Nat) (s : OpFlash) : OpFlash :=
  if current < totalSectors fw then
    if s.cancel then s.goto .aborting else (s.push (.sectorCurrent current)).goto (.sending current)
  else (s.push (.phase .stop)).goto .stopping

/-- The top of the loop of `_poll_reboot`, with `left` passes left. -/
def pollLoop (left : Nat) (s : OpFlash) : OpFlash :=
  match left with
  | 0 => (s.push .rebootTimeout).goto (.closing none)
  | left + 1 => if s.cancel then s.goto (.closing none) else s.goto (.polling left)

/-- From the start of the coroutine to its first `await`; the flag of Stop can be set. -/
def start (fw : List UInt8) (cancel : Bool) : OpFlash :=
  connectLoop 1 ⟨.returned, cancel,
    [.fwLoaded fw.length (totalSectors fw), .phase .connect]⟩

/-- What `op_flash` does with an answer. -/
def answer (fw : List UInt8) (dry : Bool) (a : Answer) (s : OpFlash) : Option OpFlash :=
  match s.pc, a with
  | .connecting _, .connect (.ok mtu) =>
    some (((s.push (.phase .handshake)).push (.mtu mtu)).goto .starting)
  | .connecting budget, .connect (.error e) =>
    if e.caught then match budget with
      | 0 => some ((s.push (.fail (.connection e))).goto .returned)
      | budget + 1 => some ((s.push (.log e)).goto (.retrying budget))
    else some ((s.push (.error e)).goto .returned)
  | .retrying budget, .slept => some (s.connectLoop budget)
  | .starting, .start (.ok _) =>
    if dry then some ((s.push .startOk).goto .dryStopping)
    else some (((s.push .startOk).push (.phase .transfer)).transferLoop fw 0)
  | .starting, .start (.error e) => some (s.goto (.closing (some e)))
  | .dryStopping, .stop (.ok _) => some ((s.push (.done true true)).goto (.closing none))
  | .dryStopping, .stop (.error e) => some (s.goto (.closing (some e)))
  | .sending _, .sector (.confirmed sector) =>
    let doneBytes := min ((sector + 1) * sectorSize) fw.length
    let progress := Push.progress doneBytes fw.length (sector + 1) (totalSectors fw)
    some ((s.push progress).transferLoop fw (sector + 1))
  | .sending _, .sector .ackTimeout => some ((s.push (.fail .ackTimeout)).goto (.closing none))
  | .sending _, .sector (.raised e) => some (s.goto (.closing (some e)))
  -- `_abort` looks at neither the acknowledgement nor an exception
  | .aborting, .stop _ => some ((s.push .stopped).goto (.closing none))
  | .stopping, .stop (.ok _) =>
    some (((s.push (.done true false)).push (.phase .reboot)).pollLoop 3)
  | .stopping, .stop (.error e) => some (s.goto (.closing (some e)))
  | _, _ => none

/-- A step of `op_flash`; `_run_task` pushes the exception that leaves it. -/
def step (fw : List UInt8) (mac : List Char) (dry : Bool) : FlashLabel → OpFlash → Option OpFlash
  | .answer a, s => s.answer fw dry a
  | .poll r, s => match s.pc with
    | .polling left =>
      let rows := (scanDevices r).toOption.getD []
      if rows.any fun row => macNorm row.address == macNorm mac then
        some ((s.push .rebootOk).goto (.closing none))
      else some (s.pollLoop left)
    | _ => none
  | .disconnected, s => match s.pc with
    | .closing none => some (s.goto .returned)
    | .closing (some e) => some ((s.push (.error e)).goto .returned)
    | _ => none
  | .cancel, s => some { s with cancel := true }

end OpFlash

/-- `op_flash` for the firmware `fw` and the device `mac`. -/
def opFlash (fw : List UInt8) (mac : List Char) (dry : Bool) : Lib.Lts OpFlash FlashLabel :=
  ⟨fun s => ∃ cancel, s = .start fw cancel, OpFlash.step fw mac dry⟩

end BleOta.Gui
