import BleOta.Host.Defs

/-!
# The session of the host tool (`run_flash`)

`run_flash` connects, sends the Start, the sectors and the Stop, and then looks for the reboot of
the device in the advertisements: the device must vanish from them and come back
(`wait_reboot_with_gap`), or be gone at the end.

* `Exc`, `Answer`: what an `await` of the session gives.
* `Watch`, `verifyReboot`: the scans after the transfer and the exit code that they give.
* `runFlash`: the session as a system whose steps are the answers.

`send_sector` is one step here; `Net` has its packets and acknowledgements.
-/

namespace BleOta.Host

/-! ## Answers -/

/-- The exceptions of Bleak and of the standard library. From Python 3.11 on `asyncio.TimeoutError`
is an `OSError`, before that it is not; the tool runs on both. -/
inductive Exc where
  | bleakError
  | timeoutError (isOsError : Bool)
  | osError
  | other
  deriving DecidableEq, Repr

/-- `except (BleakError, asyncio.TimeoutError, OSError)`. -/
def Exc.caught : Exc → Bool
  | .other => false
  | _ => true

/-- `except (BleakError, OSError)`. -/
def Exc.caughtInWatch : Exc → Bool
  | .bleakError | .osError => true
  | .timeoutError isOsError => isOsError
  | .other => false

/-- An advertisement of a scan: the name and the address (never empty) of the device. -/
structure Adv where
  name : List Char
  address : List Char
  address_ne : address ≠ []
  deriving DecidableEq

/-- `BleakScanner.discover`. -/
abbrev Scan : Type := Except Exc (List Adv)

/-- The end of `send_sector`. -/
inductive SectorResult where
  | confirmed (sector : Nat)
  | ackTimeout
  | raised (e : Exc)
  deriving DecidableEq, Repr

/-- What an `await` of a session gives: `connect` (the MTU), `sleep`, `send_start`, `send_sector`,
`send_stop` (an acknowledgement or a timeout). -/
inductive Answer where
  | connect (r : Except Exc Nat)
  | slept
  | start (r : Except Exc Unit)
  | sector (r : SectorResult)
  | stop (r : Except Exc Bool)

/-! ## The evidence of a reboot -/

/-- `mac.replace(":", "").lower()`. -/
def macNorm (mac : List Char) : List Char := (mac.filter (· ≠ ':')).map Char.toLower

/-- The advertisement is of the device with the name prefix, or of the address `mac`. -/
def Adv.isDevice (namePrefix : List Char) (mac : Option (List Char)) (adv : Adv) : Bool :=
  (!namePrefix.isEmpty && namePrefix.isPrefixOf adv.name) ||
    mac.any fun mac => !(macNorm mac).isEmpty && macNorm adv.address == macNorm mac

/-- `find_device_fast`, and `find_device` with its own timeout. -/
def findDeviceFast (namePrefix : List Char) (mac : Option (List Char)) (scan : Scan) :
    Except Exc (Option (List Char)) :=
  scan.map fun found => (found.find? (Adv.isDevice namePrefix mac)).map Adv.address

section

variable (namePrefix : List Char) (mac : Option (List Char))

/-- The loop of `wait_reboot_with_gap`, with the probes that it makes before its time is over. -/
def watchLoop (seenGap : Bool) : List Scan → Except Exc (Option (List Char))
  | [] => return none
  | probe :: probes => do
    match ← findDeviceFast namePrefix mac probe with
    | none => watchLoop true probes
    | some back => if seenGap then return some back else watchLoop false probes

/-- `wait_reboot_with_gap`: nothing depends on what the baseline sees. -/
def waitRebootWithGap (baseline : Scan) (probes : List Scan) :
    Except Exc (Option (List Char)) := do
  let _ ← findDeviceFast namePrefix mac baseline
  watchLoop namePrefix mac false probes

/-- `wait_reboot_with_gap` under its handler in `run_flash`. -/
def gapWatch (baseline : Scan) (probes : List Scan) : Except Exc (Option (List Char)) :=
  match waitRebootWithGap namePrefix mac baseline probes with
  | .ok back => .ok back
  | .error e => if e.caughtInWatch then .ok none else .error e

/-- The scans of `run_flash` after the transfer: before the watch, the baseline and the probes of
`wait_reboot_with_gap`, and after it. -/
structure Watch where
  pre : Scan
  baseline : Scan
  probes : List Scan
  post : Scan

/-- The end of `run_flash`, from `pre_visible` on. -/
def verifyReboot (w : Watch) : Except Exc Nat := do
  let pre ← findDeviceFast namePrefix mac w.pre
  let back ← gapWatch namePrefix mac w.baseline w.probes
  if back.isSome then return 0
  let post ← findDeviceFast namePrefix mac w.post
  if pre.isSome ∧ post.isNone then return 0
  return 1

end

/-! ## `run_flash` -/

/-- Where `run_flash` waits (with the `reconnect_budget` that is left; with the sector), or how it
ended. -/
inductive RunPc where
  | finding
  | connecting (budget : Nat)
  | retrying (budget : Nat)
  | starting
  | dryStopping
  | sending (current : Nat)
  | stopping
  | watching
  | returned (code : Nat)
  | raised (e : Exc)
  deriving DecidableEq, Repr

/-- A step of `run_flash`: the scan of `find_device`, an answer, the scans after the transfer. -/
inductive RunLabel where
  | find (r : Scan)
  | answer (a : Answer)
  | watch (w : Watch)

/-- The handler around the session. -/
def RunPc.except (e : Exc) : RunPc := if e.caught then .returned 1 else .raised e

/-- The test of the transfer loop. -/
def RunPc.transferLoop (fw : List UInt8) (current : Nat) : RunPc :=
  if current < totalSectors fw then .sending current else .stopping

/-- What `run_flash` does with an answer. -/
def RunPc.answer (fw : List UInt8) (dry : Bool) : RunPc → Answer → Option RunPc
  | .connecting _, .connect (.ok _) => some .starting
  | .connecting budget, .connect (.error e) =>
    if e.caught then match budget with
      | 0 => some (.returned 1)
      | budget + 1 => some (.retrying budget)
    else some (.raised e)
  | .retrying budget, .slept => some (.connecting budget)
  | .starting, .start (.ok _) => some (if dry then .dryStopping else .transferLoop fw 0)
  | .starting, .start (.error e) => some (.except e)
  | .dryStopping, .stop (.ok _) => some (.returned 0)
  | .dryStopping, .stop (.error e) => some (.except e)
  | .sending _, .sector (.confirmed sector) => some (.transferLoop fw (sector + 1))
  | .sending _, .sector .ackTimeout => some (.returned 1)
  | .sending _, .sector (.raised e) => some (.except e)
  | .stopping, .stop (.ok _) => some .watching
  | .stopping, .stop (.error e) => some (.except e)
  | _, _ => none

/-- A step of `run_flash`. -/
def RunPc.step (fw : List UInt8) (namePrefix : List Char) (mac : Option (List Char)) (dry : Bool) :
    RunLabel → RunPc → Option RunPc
  | .find r, .finding => match findDeviceFast namePrefix mac r with
    | .ok (some _) => some (.connecting 1)
    | .ok none => some (.returned 1)
    | .error e => some (.raised e)
  | .answer a, pc => pc.answer fw dry a
  | .watch w, .watching => match verifyReboot namePrefix mac w with
    | .ok code => some (.returned code)
    | .error e => some (.except e)
  | _, _ => none

/-- `run_flash`, after it has read the firmware `fw`. -/
def runFlash (fw : List UInt8) (namePrefix : List Char) (mac : Option (List Char)) (dry : Bool) :
    Lib.Lts RunPc RunLabel :=
  ⟨(· = .finding), RunPc.step fw namePrefix mac dry⟩

end BleOta.Host
