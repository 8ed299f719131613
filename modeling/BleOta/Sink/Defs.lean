import BleOta.Lib.Sections
import Mathlib.Algebra.Group.Nat.Defs

/-!
# The OTA sink (`ota_core/src/ota_sink.c`)

The sink keeps one session: it opens an OTA handle, writes to it, ends it and sets the boot
partition. Each function is here in its critical sections, in the order of the source: `Pc` has
the places between two of them, where the lock is free and `ota_sink_epoch_invalidate` of another
task can run. The calls of the IDF, the progress store and the event callback are events (`Ev`);
what the IDF answers is an input of the call (`Idf`).

* `otaSinkSessionOpen`, `otaSinkWrite`, `otaSinkFinish`, `otaSinkActivate`, `otaSinkSessionAbort`:
  the first sections; `otaSinkResume`: the later ones.
* `sinkCode`: the functions as code in critical sections (`Lib.Code`), and `sinkSystem` their
  system: one serial caller, and invalidations at any point.
-/

namespace BleOta

/-- `uint32_t` arithmetic. -/
def u32 (n : Nat) : Nat := n % 2 ^ 32

/-- `esp_err_t`. -/
abbrev EspErr := Int

/-- `ESP_OK`. -/
abbrev espOk : EspErr := 0

/-- `ESP_ERR_INVALID_STATE`. -/
def espErrInvalidState : EspErr := 0x103

/-- `ESP_ERR_INVALID_SIZE`. -/
def espErrInvalidSize : EspErr := 0x104

/-- `OTA_SECTOR_SIZE`. -/
def otaSectorSize : Nat := 4096

/-- `OTA_SINK_EPOCH_INVALID`. -/
def otaSinkEpochInvalid : Nat := 0

/-- `ota_sink_err_t`. -/
inductive OtaSinkErr where
  | ok
  | badArg
  | busy
  | noSession
  | sessionStale
  | sizeInvalid
  | partition
  | beginFail
  | writeFail
  | validateFail
  | activateFail
  | nvs
  deriving DecidableEq, Repr

/-- `sink_state_t`. -/
inductive SinkState where
  | idle
  | writing
  | abortPending
  | validated
  | activated
  deriving DecidableEq, Repr

/-- `esp_partition_t`: what the sink reads of it. -/
structure Partition where
  label : String
  size : Nat
  deriving DecidableEq, Repr

/-- The partitions of a boot: `esp_ota_get_running_partition` and
`esp_ota_get_next_update_partition`. -/
structure Board where
  running : Option Partition
  nextUpdate : Partition → Option Partition

/-- The partition table of the firmware (`partitions.csv`), booted from `ota_0`. -/
def Board.otaSlots : Board where
  running := some ⟨"ota_0", 0x1C0000⟩
  nextUpdate p := if p.label = "ota_0" then some ⟨"ota_1", 0x1C0000⟩ else some ⟨"ota_0", 0x1C0000⟩

/-- `ota_sink_progress_t`. -/
structure OtaSinkProgress where
  epoch : Nat
  targetLabel : String
  imageSize : Nat
  bytesWritten : Nat
  sectorsDone : Nat
  resumed : Bool
  deriving DecidableEq, Repr

/-- `ota_sink_event_t` with its data. -/
inductive OtaSinkEvent where
  | sessionStart (p : OtaSinkProgress)
  | progress (p : OtaSinkProgress)
  | error (code : OtaSinkErr) (idfErr : EspErr)
  | validated
  | activated
  deriving DecidableEq, Repr

/-- `ota_sink_session_cfg_t`, less the tag that only logs read. -/
structure OtaSinkSessionCfg where
  imageSize : Nat
  resume : Bool
  deriving DecidableEq, Repr

/-- `ota_sink_t`; `lock` says that the mutex is made. The event callback is the trace of events. -/
structure Sink where
  lock : Bool
  state : SinkState
  epoch : Nat
  sessionLive : Bool
  nextEpoch : Nat
  handle : Nat
  target : Option Partition
  imageSize : Nat
  bytesWritten : Nat
  sectorsDone : Nat
  progressDirty : Bool
  deriving DecidableEq, Repr

/-- What the IDF and the progress store answer to the calls of one operation; `save k` is the
answer to the save of `k` sectors. -/
structure Idf where
  begin : EspErr
  write : EspErr
  «end» : EspErr
  setBoot : EspErr
  save : Nat → EspErr
  clear : EspErr

/-- Every call is answered with `ESP_OK`. -/
def Idf.allOk : Idf := ⟨espOk, espOk, espOk, espOk, fun _ => espOk, espOk⟩

/-- A call of the IDF or of the progress store with its answer, or an event of the sink.
`otaBegin` has the handle that it made. -/
inductive Ev (α : Type) where
  | otaBegin (target : Partition) (size handle : Nat) (err : EspErr)
  | otaWrite (handle : Nat) (data : List α) (err : EspErr)
  | otaEnd (handle : Nat) (err : EspErr)
  | otaAbort (handle : Nat)
  | setBoot (target : Option Partition) (err : EspErr)
  | progressSave (size offset sector : Nat) (err : EspErr)
  | progressClear (err : EspErr)
  | fire (e : OtaSinkEvent)
  deriving DecidableEq

/-- A call of the sink by the serial caller; `none` is a `NULL` pointer. -/
inductive Op (α : Type) where
  | sessionOpen (cfg : Option OtaSinkSessionCfg)
  | write (epoch : Nat) (data : Option (List α))
  | finish (epoch : Nat)
  | activate (epoch : Nat) (rebootNow : Bool)
  | sessionAbort (epoch : Nat)
  deriving DecidableEq

/-- How a call ends: its code and, after a successful open, `*out_epoch`; or `esp_restart`. -/
inductive Ret where
  | ret (err : OtaSinkErr) (outEpoch : Option Nat)
  | restart
  deriving DecidableEq, Repr

/-- Where a call stands without the lock. -/
inductive Pc (α : Type) where
  /-- `ota_sink_write` before `esp_ota_write`. -/
  | writeFlash (epoch handle : Nat) (data : List α)
  /-- `ota_sink_write` after it, before the second take of the lock. -/
  | writeAccount (epoch : Nat) (len : Nat)
  /-- `ota_sink_finish` before `esp_ota_end`. -/
  | finishEnd (handle : Nat)
  /-- `ota_sink_finish` after it, before the second take of the lock. -/
  | finishLock (handle : Nat) (ier : EspErr)
  /-- `ota_sink_activate` before `esp_ota_set_boot_partition`. -/
  | activateBoot (target : Option Partition) (rebootNow : Bool)
  /-- `ota_sink_activate` after a failure of it, before the second take of the lock. -/
  | activateUndo (ier : EspErr)
  /-- `ota_sink_activate` before `ota_progress_clear`. -/
  | activateClear (rebootNow : Bool)
  /-- `ota_sink_activate` after it, before the second take of the lock. -/
  | activateClose (rebootNow : Bool)
  deriving DecidableEq

/-- The sink, and how many handles `esp_ota_begin` has made: the handles are 1, 2, … -/
structure SinkSt where
  sink : Sink
  handles : Nat
  deriving DecidableEq, Repr

/-- What a section leaves: the state, its events, and the next place or the result. -/
abbrev Out (α : Type) := SinkSt × List (Ev α) × (Pc α ⊕ Ret)

variable {α : Type}

/-! ## Internal tools -/

/-- `sink_fire_error`. -/
def sinkFireError (code : OtaSinkErr) (idfErr : EspErr) : Ev α := .fire (.error code idfErr)

/-- `sink_to_idle_locked`. -/
def sinkToIdleLocked (s : Sink) : Sink := { s with state := .idle, sessionLive := false }

/-- `sink_epoch_is_current_locked`. -/
def sinkEpochIsCurrentLocked (epoch : Nat) (s : Sink) : Bool :=
  s.sessionLive && epoch == s.epoch && s.state == .writing

/-- The memory of `s_sink` at boot. -/
def Sink.zero : Sink :=
  ⟨false, .idle, 0, false, 0, 0, none, 0, 0, 0, false⟩

/-- `ota_sink_init`. -/
def otaSinkInit (s : Sink) : Sink :=
  if s.lock then s
  else { s with
    lock := true, state := .idle, epoch := otaSinkEpochInvalid, nextEpoch := 1,
    sessionLive := false, handle := 0 }

/-! ## `ota_sink_session_open` -/

/-- The deferred abort: the sink after it, and the handle that it aborts. -/
def settleAbort (s : Sink) : Sink × Option Nat :=
  if s.state = .abortPending then
    if s.handle ≠ 0 then (sinkToIdleLocked { s with handle := 0 }, some s.handle)
    else (sinkToIdleLocked s, none)
  else (s, none)

/-- The events of the deferred abort. -/
def settleEvents (s : Sink) : List (Ev α) := (settleAbort s).2.toList.map .otaAbort

/-- The session is registered with the epoch `next_epoch++`. -/
def registerSession (target : Partition) (imageSize handle : Nat) (s : Sink) : Sink :=
  { s with
    handle := handle, target := some target, imageSize := imageSize, bytesWritten := 0,
    sectorsDone := 0, progressDirty := false, epoch := s.nextEpoch,
    nextEpoch := u32 (s.nextEpoch + 1), sessionLive := true, state := .writing }

/-- From the call of `esp_ota_begin` on. -/
def beginSession (cfg : OtaSinkSessionCfg) (target : Partition) (idf : Idf) (s : SinkSt) : Out α :=
  if idf.begin ≠ espOk then
    (⟨{ s.sink with handle := 0 }, s.handles⟩,
      [.otaBegin target cfg.imageSize 0 idf.begin, sinkFireError .beginFail idf.begin],
      .inr (.ret .beginFail none))
  else
    let h := s.handles + 1
    let sink := registerSession target cfg.imageSize h s.sink
    (⟨sink, h⟩,
      [.otaBegin target cfg.imageSize h espOk,
        .fire (.sessionStart ⟨sink.epoch, target.label, sink.imageSize, 0, 0, cfg.resume⟩)],
      .inr (.ret .ok (some sink.epoch)))

/-- `ota_sink_session_open`; it is one critical section. -/
def otaSinkSessionOpen (B : Board) (cfg : Option OtaSinkSessionCfg) (idf : Idf) (s : SinkSt) :
    Out α :=
  match cfg with
  | none => (s, [], .inr (.ret .badArg none))
  | some cfg =>
    if cfg.imageSize = 0 then (s, [], .inr (.ret .badArg none))
    else
      let es := settleEvents s.sink
      let s : SinkSt := { s with sink := (settleAbort s.sink).1 }
      if s.sink.sessionLive then (s, es, .inr (.ret .busy none))
      else match B.running with
        | none => (s, es, .inr (.ret .partition none))
        | some running => match B.nextUpdate running with
          | none => (s, es, .inr (.ret .partition none))
          | some target =>
            if target.size < cfg.imageSize then (s, es, .inr (.ret .sizeInvalid none))
            else
              let out := beginSession cfg target idf s
              (out.1, es ++ out.2.1, out.2.2)

/-! ## `ota_sink_write` -/

/-- `ota_sink_write` up to the first give of the lock. -/
def otaSinkWrite (epoch : Nat) (data : Option (List α)) (s : SinkSt) : Out α :=
  match data with
  | none => (s, [], .inr (.ret .badArg none))
  | some data =>
    if data.length = 0 then (s, [], .inr (.ret .badArg none))
    else if sinkEpochIsCurrentLocked epoch s.sink then
      (s, [], .inl (.writeFlash epoch s.sink.handle data))
    else (s, [], .inr (.ret .sessionStale none))

/-- `bytes_written - sectors_done * OTA_SECTOR_SIZE`, in `uint32_t`. -/
def sectorRest (s : Sink) : Nat :=
  u32 (s.bytesWritten + 2 ^ 32 - u32 (s.sectorsDone * otaSectorSize))

/-- The body of the sector loop: `PROGRESS`, and the save of the progress. -/
def sectorStep (save : Nat → EspErr) (s : Sink) : Sink × List (Ev α) × OtaSinkErr :=
  let s := { s with sectorsDone := u32 (s.sectorsDone + 1) }
  let label := match s.target with
    | some t => t.label
    | none => "?"
  let offset := u32 (s.sectorsDone * otaSectorSize)
  let perr := save s.sectorsDone
  ({ s with progressDirty := perr ≠ espOk },
    [.fire (.progress ⟨s.epoch, label, s.imageSize, s.bytesWritten, s.sectorsDone, false⟩),
      .progressSave s.imageSize offset s.sectorsDone perr],
    if perr ≠ espOk then .nvs else .ok)

/-- The sector loop from the return code `ret`, for at most `fuel` rounds (`sectorLoop_done`: it
ends before). A failed save makes the return code `OTA_SINK_ERR_NVS`, a later save does not take
that back. -/
def sectorLoop (save : Nat → EspErr) : Nat → Sink → OtaSinkErr → Sink × List (Ev α) × OtaSinkErr
  | 0, s, ret => (s, [], ret)
  | fuel + 1, s, ret =>
    if otaSectorSize ≤ sectorRest s then
      let r := sectorStep save s
      let l := sectorLoop save fuel r.1 (if r.2.2 = .nvs then .nvs else ret)
      (l.1, r.2.1 ++ l.2.1, l.2.2)
    else (s, [], ret)

/-- `ota_sink_write` from the second take of the lock on. -/
def otaSinkWriteAccount (epoch len : Nat) (idf : Idf) (s : SinkSt) : Out α :=
  if sinkEpochIsCurrentLocked epoch s.sink then
    let sink := { s.sink with bytesWritten := u32 (s.sink.bytesWritten + u32 len) }
    let l := sectorLoop idf.save (sectorRest sink / otaSectorSize) sink .ok
    ({ s with sink := l.1 }, l.2.1, .inr (.ret l.2.2 none))
  else (s, [], .inr (.ret .sessionStale none))

/-! ## Invalidation, abort -/

/-- `ota_sink_epoch_invalidate`. -/
def otaSinkEpochInvalidate (s : Sink) : Sink :=
  { s with
    state := if s.state = .writing then .abortPending else s.state, sessionLive := false }

/-- `ota_sink_epoch_current`. -/
def otaSinkEpochCurrent (s : Sink) : Nat := if s.sessionLive then s.epoch else otaSinkEpochInvalid

/-- The test `!session_live || epoch != s_sink.epoch`. -/
def sinkStale (epoch : Nat) (s : Sink) : Bool := !s.sessionLive || epoch != s.epoch

/-- `ota_sink_session_abort`; it is one critical section. -/
def otaSinkSessionAbort (epoch : Nat) (s : SinkSt) : Out α :=
  if sinkStale epoch s.sink then (s, [], .inr (.ret .sessionStale none))
  else if s.sink.state = .writing ∧ s.sink.handle ≠ 0 then
    ({ s with sink := sinkToIdleLocked { s.sink with handle := 0 } }, [.otaAbort s.sink.handle],
      .inr (.ret .ok none))
  else ({ s with sink := sinkToIdleLocked s.sink }, [], .inr (.ret .ok none))

/-! ## `ota_sink_finish` -/

/-- `ota_sink_finish` up to the first give of the lock. -/
def otaSinkFinish (epoch : Nat) (s : SinkSt) : Out α :=
  if sinkStale epoch s.sink then (s, [], .inr (.ret .sessionStale none))
  else if s.sink.state ≠ .writing then (s, [], .inr (.ret .noSession none))
  else ({ s with sink := { s.sink with handle := 0 } }, [], .inl (.finishEnd s.sink.handle))

/-- `ota_sink_finish` from the second take of the lock on. -/
def otaSinkFinishLock (handle : Nat) (ier : EspErr) (s : SinkSt) : Out α :=
  if ier ≠ espOk then
    ({ s with sink := sinkToIdleLocked s.sink },
      [.otaAbort handle, sinkFireError .validateFail ier], .inr (.ret .validateFail none))
  else
    ({ s with sink := { s.sink with state := .validated } }, [.fire .validated],
      .inr (.ret .ok none))

/-! ## `ota_sink_activate` -/

/-- `ota_sink_activate` up to the first give of the lock. -/
def otaSinkActivate (epoch : Nat) (rebootNow : Bool) (s : SinkSt) : Out α :=
  if sinkStale epoch s.sink then (s, [], .inr (.ret .sessionStale none))
  else if s.sink.state ≠ .validated then (s, [], .inr (.ret .noSession none))
  else
    ({ s with sink := { s.sink with state := .activated } }, [],
      .inl (.activateBoot s.sink.target rebootNow))

/-- `ota_sink_activate` after a failure of `esp_ota_set_boot_partition`. -/
def otaSinkActivateUndo (ier : EspErr) (s : SinkSt) : Out α :=
  ({ s with sink := { s.sink with state := .validated } }, [sinkFireError .activateFail ier],
    .inr (.ret .activateFail none))

/-- `ota_sink_activate` from the take of the lock that closes the session on. -/
def otaSinkActivateClose (rebootNow : Bool) (s : SinkSt) : Out α :=
  ({ s with sink := { s.sink with sessionLive := false } }, [.fire .activated],
    .inr (if rebootNow then .restart else .ret .ok none))

/-! ## The system -/

/-- The first section of a call. -/
def otaSinkEnter (B : Board) (op : Op α) (idf : Idf) : SinkSt → Out α :=
  match op with
  | .sessionOpen cfg => otaSinkSessionOpen B cfg idf
  | .write epoch data => otaSinkWrite epoch data
  | .finish epoch => otaSinkFinish epoch
  | .activate epoch rebootNow => otaSinkActivate epoch rebootNow
  | .sessionAbort epoch => otaSinkSessionAbort epoch

/-- A call from one of its later places on. -/
def otaSinkResume (idf : Idf) (pc : Pc α) (s : SinkSt) : Out α :=
  match pc with
  | .writeFlash epoch handle data =>
    if idf.write ≠ espOk then
      (s, [.otaWrite handle data idf.write, sinkFireError .writeFail idf.write],
        .inr (.ret .writeFail none))
    else (s, [.otaWrite handle data espOk], .inl (.writeAccount epoch data.length))
  | .writeAccount epoch len => otaSinkWriteAccount epoch len idf s
  | .finishEnd handle => (s, [.otaEnd handle idf.end], .inl (.finishLock handle idf.end))
  | .finishLock handle ier => otaSinkFinishLock handle ier s
  | .activateBoot target rebootNow =>
    (s, [.setBoot target idf.setBoot],
      .inl (if idf.setBoot ≠ espOk then .activateUndo idf.setBoot else .activateClear rebootNow))
  | .activateUndo ier => otaSinkActivateUndo ier s
  | .activateClear rebootNow => (s, [.progressClear idf.clear], .inl (.activateClose rebootNow))
  | .activateClose rebootNow => otaSinkActivateClose rebootNow s

/-- A call with what the IDF answers to it. -/
abbrev SinkCall (α : Type) := Op α × Idf

/-- An invalidation of another task. -/
def invalidate (s : SinkSt) : SinkSt := { s with sink := otaSinkEpochInvalidate s.sink }

/-- The sink as code in critical sections. -/
def sinkCode (α : Type) (B : Board) : Lib.Code SinkSt (SinkCall α) (Pc α) Ret (Ev α) where
  enter o := otaSinkEnter B o.1 o.2
  resume o := otaSinkResume o.2
  poke := invalidate
  ends r := r = .restart

/-- A state of the sink, its caller and the log. -/
abbrev SinkSys (α : Type) := Lib.Code.St SinkSt (SinkCall α) (Pc α) Ret (Ev α)

/-- An entry of the log. -/
abbrev SinkEntry (α : Type) := Lib.Entry (SinkCall α) Ret (Ev α)

/-- The sink after `ota_sink_init`. -/
def SinkSt.init : SinkSt := ⟨otaSinkInit .zero, 0⟩

/-- The initialised sink, outside a call. -/
def sinkInit : SinkSys α := ⟨.init, .idle, []⟩

/-- One serial caller and invalidations, from the initialised sink. -/
def sinkSystem (α : Type) (B : Board) : Lib.Lts (SinkSys α) (Lib.Move (SinkCall α)) :=
  (sinkCode α B).lts (· = sinkInit)

end BleOta
