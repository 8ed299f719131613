import BleOta.Hxd019.Frame
import BleOta.Lib.Lts

/-!
# The driver of the HXD019 chip (`hxd019_uart.c`, `hxd019_session.c`)

The session holds the bound code group and a cache of the last full state. A convenience function
takes the cached state (or the default), changes a field and the key, builds the frame, sends it and
caches the state.

* `Session`: the session; `Driver`: the session, the mutex and the lines that the driver logs.
* `sendStateWithKey`: the path of all convenience functions.
* `Call`: the functions for air conditioners; `Call.run`: a call.
* `api`: the driver as a system whose steps are calls.
-/

namespace BleOta.Hxd019

/-! ## The session -/

/-- All bytes 0. -/
def AcState.zero : AcState := ⟨0, 0, 0, 0, 0, 0, 0, 0, 0, 0, 0⟩

/-- `hxd019_session_t`, without the hook that nothing calls. -/
structure Session where
  codeGroup : UInt16
  hasState : Bool
  lastState : AcState
  deriving DecidableEq, Repr

namespace Session

/-- `hxd019_session_init`. -/
def init : Session := ⟨0, false, .zero⟩

/-- `hxd019_session_bind`. -/
def bind (codeGroup : UInt16) (_ : Session) : Session := ⟨codeGroup, false, .zero⟩

/-- `hxd019_session_base_state`. -/
def baseState (s : Session) : AcState := if s.hasState then s.lastState else acStateDefault

/-- `hxd019_session_commit`. -/
def commit (st : AcState) (s : Session) : Session := { s with lastState := st, hasState := true }

end Session

/-! ## The fields -/

/-- The fields of `mut_bool`. -/
inductive BoolField where
  | power
  | lrswing
  | sleep
  | auxHeat
  | light
  | eco
  deriving DecidableEq, Repr

/-- `mut_bool`. -/
def mutBool (field : BoolField) (on : Bool) (st : AcState) : AcState :=
  match field with
  | .power => { st with power := if on then powerOn else powerOff }
  | .lrswing => { st with swingAuto := if on then lrswingOn else lrswingOff }
  | .sleep => { st with sleep := if on then 1 else 0 }
  | .auxHeat => { st with auxHeat := if on then 1 else 0 }
  | .light => { st with light := if on then 1 else 0 }
  | .eco => { st with eco := if on then 1 else 0 }

/-- The functions `mut_*` with their arguments. -/
inductive Mutate where
  | bool (field : BoolField) (on : Bool)
  | temp (val : UInt8)
  | u8Mode (val : UInt8)
  | u8Fan (val : UInt8)
  | u8Swing (val : UInt8)
  deriving DecidableEq, Repr

/-- The call of a function `mut_*`. -/
def Mutate.apply : Mutate → AcState → AcState
  | .bool field on, st => mutBool field on st
  | .temp val, st => { st with tempC := val }
  | .u8Mode val, st => { st with mode := val }
  | .u8Fan val, st => { st with fan := val }
  | .u8Swing val, st => { st with swing := val }

/-- The state of `send_state_with_key` before the frame is built: `mutate` can be `NULL`. -/
def keyedState (key : UInt8) (mutate : Option Mutate) (base : AcState) : AcState :=
  let st := { base with key := key }
  match mutate with
  | some m => m.apply st
  | none => st

/-! ## The driver -/

/-- The lines that the driver logs for a frame that was sent and for a bind. -/
inductive LogLine where
  | txFrame (f : Frame)
  | bindGroup (codeGroup : UInt16)
  deriving DecidableEq, Repr

/-- The driver: whether the mutex exists (`hxd019_init` has run), the session, the log. -/
structure Driver where
  txMutex : Bool
  sess : Session
  log : List LogLine
  deriving DecidableEq, Repr

/-- What `hxd019_send_frame` meets: whether the mutex is taken in time, and what
`uart_write_bytes` returns. -/
structure Tx where
  mutexTaken : Bool
  written : Int
  deriving DecidableEq, Repr

/-- The errors of `hxd019_send_frame`. -/
def Driver.txError (d : Driver) (tx : Tx) (f : Frame) : Bool :=
  f.length = 0 ∨ frameMax < f.length ∨ ¬d.txMutex ∨ ¬tx.mutexTaken ∨ tx.written ≠ f.length

/-- `hxd019_send_frame`: all its errors are `HXD019_ERR_ARG`. -/
def sendFrame (tx : Tx) (f : Frame) (d : Driver) : Except Err Unit × Driver :=
  if d.txError tx f then (.error .arg, d)
  else (.ok (), { d with log := d.log ++ [.txFrame f] })

section

variable (fmt : Format) (tx : Tx) (d : Driver)

/-- `send_state_with_key`. -/
def sendStateWithKey (key : UInt8) (mutate : Option Mutate) : Except Err Unit × Driver :=
  let st := keyedState key mutate d.sess.baseState
  match buildAcState fmt d.sess.codeGroup st with
  | .error e => (.error e, d)
  | .ok f => match sendFrame tx f d with
    | (.error e, d) => (.error e, d)
    | (.ok (), d) => (.ok (), { d with sess := d.sess.commit st })

/-- `hxd019_ac_simple`. -/
def acSimple (funcCode : UInt8) : Except Err Unit × Driver :=
  if d.sess.codeGroup = 0 then (.error .noent, d)
  else sendFrame tx (buildAcSimple d.sess.codeGroup funcCode) d

/-- `hxd019_bind_group`. -/
def bindGroup (codeGroup : UInt16) : Except Err Unit × Driver :=
  if ¬d.txMutex then (.error .arg, d)
  else (.ok (), { d with
    sess := d.sess.bind codeGroup, log := d.log ++ [.bindGroup codeGroup] })

/-- `hxd019_ac_power`. -/
def acPower (on : Bool) : Except Err Unit × Driver :=
  sendStateWithKey fmt tx d keyPower (some (.bool .power on))

/-- The key of `hxd019_ac_temp`. -/
def tempKey (tempC : UInt8) (base : AcState) : UInt8 :=
  if base.tempC ≤ tempC then keyTempInc else keyTempDec

/-- `hxd019_ac_temp`. -/
def acTemp (tempC : UInt8) : Except Err Unit × Driver :=
  sendStateWithKey fmt tx d (tempKey tempC d.sess.baseState) (some (.temp tempC))

/-- The temperature of `hxd019_ac_temp_step`. -/
def steppedTemp (delta : Int8) (base : AcState) : UInt8 :=
  let t : Int := base.tempC.toNat + delta.toInt
  let t := if t < temp11MinC.toNat then (temp11MinC.toNat : Int) else t
  let t := if temp11MaxC.toNat < t then (temp11MaxC.toNat : Int) else t
  UInt8.ofNat t.toNat

/-- The key of `hxd019_ac_temp_step`. -/
def stepKey (delta : Int8) : UInt8 := if 0 ≤ delta.toInt then keyTempInc else keyTempDec

/-- `hxd019_ac_temp_step`. -/
def acTempStep (delta : Int8) : Except Err Unit × Driver :=
  sendStateWithKey fmt tx d (stepKey delta) (some (.temp (steppedTemp delta d.sess.baseState)))

/-- `hxd019_ac_mode`. -/
def acMode (mode : UInt8) : Except Err Unit × Driver :=
  sendStateWithKey fmt tx d keyMode (some (.u8Mode mode))

/-- `hxd019_ac_fan`. -/
def acFan (fan : UInt8) : Except Err Unit × Driver :=
  sendStateWithKey fmt tx d keyFan (some (.u8Fan fan))

/-- `hxd019_ac_swing`. -/
def acSwing (swing : UInt8) : Except Err Unit × Driver :=
  sendStateWithKey fmt tx d keySwing (some (.u8Swing swing))

/-- `hxd019_ac_lrswing`. -/
def acLrswing (on : Bool) : Except Err Unit × Driver :=
  sendStateWithKey fmt tx d keyLrswing (some (.bool .lrswing on))

/-- The functions that only the formats with 11 keys have. -/
def sendKey11 (key : UInt8) (field : BoolField) (on : Bool) : Except Err Unit × Driver :=
  if fmt.is11Key then sendStateWithKey fmt tx d key (some (.bool field on)) else (.error .key7, d)

/-- `hxd019_ac_sleep`. -/
def acSleep (on : Bool) : Except Err Unit × Driver := sendKey11 fmt tx d keySleep .sleep on

/-- `hxd019_ac_aux_heat`. -/
def acAuxHeat (on : Bool) : Except Err Unit × Driver := sendKey11 fmt tx d keyHeat .auxHeat on

/-- `hxd019_ac_light`. -/
def acLight (on : Bool) : Except Err Unit × Driver := sendKey11 fmt tx d keyLight .light on

/-- `hxd019_ac_eco`. -/
def acEco (on : Bool) : Except Err Unit × Driver := sendKey11 fmt tx d keyEco .eco on

/-- `hxd019_ac_send_key`. -/
def acSendKey (key : UInt8) : Except Err Unit × Driver := sendStateWithKey fmt tx d key none

end

/-! ## Calls -/

/-- A call of a function for air conditioners. -/
inductive Call where
  | bindGroup (codeGroup : UInt16)
  | acSimple (funcCode : UInt8)
  | acPower (on : Bool)
  | acTemp (tempC : UInt8)
  | acTempStep (delta : Int8)
  | acMode (mode : UInt8)
  | acFan (fan : UInt8)
  | acSwing (swing : UInt8)
  | acLrswing (on : Bool)
  | acSleep (on : Bool)
  | acAuxHeat (on : Bool)
  | acLight (on : Bool)
  | acEco (on : Bool)
  | acSendKey (key : UInt8)
  deriving DecidableEq, Repr

/-- The call, with the outcome `tx` of its transmission. -/
def Call.run (fmt : Format) (tx : Tx) (d : Driver) : Call → Except Err Unit × Driver
  | .bindGroup codeGroup => Hxd019.bindGroup d codeGroup
  | .acSimple funcCode => Hxd019.acSimple tx d funcCode
  | .acPower on => Hxd019.acPower fmt tx d on
  | .acTemp tempC => Hxd019.acTemp fmt tx d tempC
  | .acTempStep delta => Hxd019.acTempStep fmt tx d delta
  | .acMode mode => Hxd019.acMode fmt tx d mode
  | .acFan fan => Hxd019.acFan fmt tx d fan
  | .acSwing swing => Hxd019.acSwing fmt tx d swing
  | .acLrswing on => Hxd019.acLrswing fmt tx d on
  | .acSleep on => Hxd019.acSleep fmt tx d on
  | .acAuxHeat on => Hxd019.acAuxHeat fmt tx d on
  | .acLight on => Hxd019.acLight fmt tx d on
  | .acEco on => Hxd019.acEco fmt tx d on
  | .acSendKey key => Hxd019.acSendKey fmt tx d key

/-- The driver under calls of one task, before or after `hxd019_init`. -/
def api (fmt : Format) : Lib.Lts Driver (Call × Tx) :=
  ⟨fun d => ∃ txMutex, d = ⟨txMutex, .init, []⟩, fun c d => some (c.1.run fmt c.2 d).2⟩

end BleOta.Hxd019
