import BleOta.Gui.Flash

/-!
# The GUI and its worker (`host/ble_ota_gui.py`)

The GUI thread runs the handlers of the buttons and `_poll`, which drains the queue of events; the
worker thread runs the coroutines that the handlers post. They share the queue and the flag of Stop.

* `Event`: what the worker puts in the queue. The protocol events (`ev:`) change nothing here.
* `TaskPc`, `Task.step`: a posted coroutine, `op_scan` or `op_flash`; a step goes to its next
  `await`.
* `OtaGui`, `OtaGui.step`: both threads. The handlers run only while `_poll` does not; a step of the
  worker comes anywhere.
-/

namespace BleOta.Gui

open Host

/-! ## Events -/

/-- The events of `op_scan` and of `op_flash`. -/
inductive Event where
  | scanStart
  | scanDone (devices : List Adv) (error : Option Exc)
  | flash (p : Push)
  deriving DecidableEq

/-- `_dispatch` clears `_busy` for this event of a flash. -/
def Push.ends : Push → Bool
  | .done .. | .fail _ | .cancelled | .stopped | .error _ => true
  | _ => false

/-- `_dispatch` clears `_busy` for this event. -/
def Event.ends : Event → Bool
  | .scanStart => false
  | .scanDone .. => true
  | .flash p => p.ends

/-! ## Coroutines -/

/-- A coroutine that the GUI posts. -/
inductive Op where
  | scan
  | flash (mac : List Char) (dry : Bool)
  deriving DecidableEq

/-- Where a coroutine is: not begun, in `scan_devices`, in `op_flash`, or at its end. -/
inductive TaskPc where
  | posted (op : Op)
  | scanning
  | flashing (mac : List Char) (dry : Bool) (fw : List UInt8) (s : OpFlash)
  | returned
  deriving DecidableEq

/-- A coroutine. `stopSince` is a history variable: `on_stop` has run since it was posted. -/
structure Task where
  pc : TaskPc
  stopSince : Bool
  deriving DecidableEq

/-- A step of a coroutine: its begin, with the file that `op_flash` reads; the end of the scan;
a step of `op_flash`. -/
inductive TaskLabel where
  | begin (file : Except Exc (List UInt8))
  | scanned (r : Scan)
  | flash (l : FlashLabel)

/-- The payload of `scan_done`. -/
def scanDone (r : Scan) : Event :=
  match scanDevices r with
  | .ok rows => .scanDone rows none
  | .error e => .scanDone [] (some e)

/-- A step of `op_flash` and the events that it pushes. -/
def flashStep (mac : List Char) (dry : Bool) (fw : List UInt8) (l : FlashLabel) (s : OpFlash) :
    Option (OpFlash × List Push) :=
  (OpFlash.step fw mac dry l s).map fun s' => (s', s'.pushed.drop s.pushed.length)

/-- A step of a coroutine, with the flag of Stop: where it is then, and the events that it pushes.
The request of Stop is not a step of the coroutine. -/
def Task.step (cancel : Bool) (l : TaskLabel) (t : Task) : Option (Task × List Event) :=
  match l, t.pc with
  | .begin _, .posted .scan => some ({ t with pc := .scanning }, [.scanStart])
  | .begin (.ok fw), .posted (.flash mac dry) =>
    let s := OpFlash.start fw cancel
    some ({ t with pc := .flashing mac dry fw s }, s.pushed.map .flash)
  | .begin (.error e), .posted (.flash _ _) =>
    some ({ t with pc := .returned }, [.flash (.error e)])
  | .scanned r, .scanning => some ({ t with pc := .returned }, [scanDone r])
  | .flash .cancel, _ => none
  | .flash l, .flashing mac dry fw s =>
    (flashStep mac dry fw l s).map fun (s', new) =>
      ({ t with pc := .flashing mac dry fw s' }, new.map .flash)
  | _, _ => none

/-- The flag of Stop is set: a running `op_flash` sees it at its next test. -/
def Task.stop (t : Task) : Task :=
  { pc := match t.pc with
      | .flashing mac dry fw s => .flashing mac dry fw { s with cancel := true }
      | pc => pc,
    stopSince := true }

/-! ## The system -/

/-- The fields of `OtaGui` and `OtaWorker`; `draining`: the GUI thread is in `_poll`. -/
structure OtaGui where
  busy : Bool
  draining : Bool
  devices : List Adv
  selection : Option Nat
  queue : List Event
  cancel : Bool
  tasks : List Task
  deriving DecidableEq

/-- What the user does. The buttons are disabled at times; the handlers are here for any time. -/
inductive Action where
  | onScan
  | pick (selection : Option Nat)
  | onStart (isFile dry : Bool)
  | onStop

inductive GuiLabel where
  | user (a : Action)
  | poll
  | dispatch
  | drained
  | worker (i : Nat) (l : TaskLabel)

namespace OtaGui

/-- `OtaGui.__init__`. -/
def init : OtaGui := ⟨false, false, [], none, [], false, []⟩

/-- `post`. -/
def post (op : Op) (g : OtaGui) : OtaGui := { g with tasks := g.tasks ++ [⟨.posted op, false⟩] }

/-- `selected_device`. -/
def selectedDevice (g : OtaGui) : Option Adv := g.selection.bind fun i => g.devices[i]?

def onScan (g : OtaGui) : OtaGui := if g.busy then g else { g with busy := true }.post .scan

def onStart (isFile dry : Bool) (g : OtaGui) : OtaGui :=
  if g.busy then g
  else match g.selectedDevice with
    | none => g
    | some dev => if isFile then { g with busy := true }.post (.flash dev.address dry) else g

/-- `on_stop` and `request_cancel`. -/
def onStop (g : OtaGui) : OtaGui := { g with cancel := true, tasks := g.tasks.map Task.stop }

def act : Action → OtaGui → OtaGui
  | .onScan, g => g.onScan
  | .pick selection, g => { g with selection := selection }
  | .onStart isFile dry, g => g.onStart isFile dry
  | .onStop, g => g.onStop

/-- `_dispatch`. -/
def dispatch (e : Event) (g : OtaGui) : OtaGui :=
  match e with
  | .scanDone devices _ => { g with busy := false, devices := devices, selection := none }
  | e => if e.ends then { g with busy := false } else g

/-- A step of one of the two threads. -/
def step : GuiLabel → OtaGui → Option OtaGui
  | .user a, g => if g.draining then none else some (g.act a)
  | .poll, g => if g.draining then none else some { g with draining := true }
  | .dispatch, g => match g.draining, g.queue with
    | true, e :: queue => some ({ g with queue := queue }.dispatch e)
    | _, _ => none
  | .drained, g => if g.draining ∧ g.queue = [] then some { g with draining := false } else none
  | .worker i l, g => match g.tasks[i]? with
    | some t => (t.step g.cancel l).map fun (t', new) =>
      { g with tasks := g.tasks.set i t', queue := g.queue ++ new }
    | none => none

end OtaGui

/-- The GUI with its worker. -/
def guiSystem : Lib.Lts OtaGui GuiLabel := ⟨fun g => g = .init, OtaGui.step⟩

/-- One `_poll` that takes `n` events. -/
def drain (n : Nat) : List GuiLabel := .poll :: (List.replicate n .dispatch ++ [.drained])

/-- A scan that finds one device. -/
def deviceScan : Scan := .ok [⟨fallbackName, ['c', ':', '6'], List.cons_ne_nil _ _⟩]

end BleOta.Gui
