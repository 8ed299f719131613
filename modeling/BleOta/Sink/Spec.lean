import BleOta.Sink.Invariant

/-!
# The executable specification of the sink (`ota_core/test/host_test_ota_sink.py`)

`SinkSpec` is the class that the host test checks its cases against: one task, no handles and no
IDF, unbounded integers. `apiSystem` is the sink as that task sees it: each call in one piece, an
invalidation between two calls.

* `SinkSpec.call`, `SinkSpec.run`: a call of the specification, and a sequence of calls.
* `apiSystem_reach`: what the task reaches, the sink reaches.
-/

namespace BleOta

variable {α : Type}

/-! ## The specification -/

/-- `SECTOR_SIZE`. -/
def specSectorSize : Nat := 4096

/-- `PARTITION_SIZE`. -/
def partitionSize : Nat := 0x1C0000

/-- The return codes of the test. -/
inductive SpecRet where
  | ok
  | badArg
  | busy
  | noSession
  | stale
  | sizeInvalid
  | validateFail
  deriving DecidableEq, Repr

/-- The states of the test. -/
inductive SpecState where
  | idle
  | writing
  | abortPending
  | validated
  deriving DecidableEq, Repr

/-- The events of the test. -/
inductive SpecEvent where
  | sessionStart (epoch : Nat)
  | progress (sectorsDone : Nat)
  | error (code : SpecRet)
  | validated (epoch : Nat)
  | activated (epoch : Nat)
  deriving DecidableEq, Repr

/-- `SinkSpec`. -/
structure SinkSpec where
  epoch : Nat
  nextEpoch : Nat
  sessionLive : Bool
  state : SpecState
  imageSize : Nat
  bytesWritten : Nat
  sectorsDone : Nat
  nvsSaves : List (Nat × Nat × Nat)
  nvsCleared : Nat
  events : List SpecEvent
  deriving DecidableEq, Repr

namespace SinkSpec

/-- `__init__`, and `init`. -/
def start : SinkSpec := ⟨0, 1, false, .idle, 0, 0, 0, [], 0, []⟩

/-- `_to_idle`. -/
def toIdle (sp : SinkSpec) : SinkSpec := { sp with state := .idle, sessionLive := false }

/-- `_current`. -/
def current (epoch : Nat) (sp : SinkSpec) : Bool :=
  sp.sessionLive && epoch == sp.epoch && sp.state == .writing

/-- `epoch_current`. -/
def epochCurrent (sp : SinkSpec) : Nat := if sp.sessionLive then sp.epoch else 0

/-- The deferred abort of `open`. -/
def settle (sp : SinkSpec) : SinkSpec := if sp.state = .abortPending then sp.toIdle else sp

/-- `open`. -/
def «open» (imageSize : Nat) (sp : SinkSpec) : SinkSpec × SpecRet × Option Nat :=
  if imageSize = 0 then (sp, .badArg, none)
  else
    let sp := sp.settle
    if sp.sessionLive then (sp, .busy, none)
    else if partitionSize < imageSize then (sp, .sizeInvalid, none)
    else
      ({ sp with
          epoch := sp.nextEpoch, nextEpoch := sp.nextEpoch + 1, sessionLive := true,
          state := .writing, imageSize := imageSize, bytesWritten := 0, sectorsDone := 0,
          events := sp.events ++ [.sessionStart sp.nextEpoch] }, .ok, some sp.nextEpoch)

/-- The loop of `write`, for at most `fuel` rounds (`sectorLoop_done`: it ends before). -/
def sectorLoop : Nat → SinkSpec → SinkSpec
  | 0, sp => sp
  | fuel + 1, sp =>
    if specSectorSize ≤ sp.bytesWritten - sp.sectorsDone * specSectorSize then
      let k := sp.sectorsDone + 1
      sectorLoop fuel { sp with
        sectorsDone := k, nvsSaves := sp.nvsSaves ++ [(sp.imageSize, k * specSectorSize, k)],
        events := sp.events ++ [.progress k] }
    else sp

/-- `write`. -/
def write (epoch dataLen : Nat) (sp : SinkSpec) : SinkSpec × SpecRet × Option Nat :=
  if sp.current epoch then
    let sp := { sp with bytesWritten := sp.bytesWritten + dataLen }
    (sp.sectorLoop ((sp.bytesWritten - sp.sectorsDone * specSectorSize) / specSectorSize), .ok,
      none)
  else (sp, .stale, none)

/-- `invalidate`. -/
def invalidate (sp : SinkSpec) : SinkSpec :=
  { sp with
    state := if sp.state = .writing then .abortPending else sp.state, sessionLive := false }

/-- The test `not self.session_live or epoch != self.epoch`. -/
def stale (epoch : Nat) (sp : SinkSpec) : Bool := !sp.sessionLive || epoch != sp.epoch

/-- `abort`. -/
def abort (epoch : Nat) (sp : SinkSpec) : SinkSpec × SpecRet × Option Nat :=
  if sp.stale epoch then (sp, .stale, none) else (sp.toIdle, .ok, none)

/-- `finish`. -/
def finish (epoch : Nat) (sp : SinkSpec) : SinkSpec × SpecRet × Option Nat :=
  if sp.stale epoch then (sp, .stale, none)
  else if sp.state ≠ .writing then (sp, .noSession, none)
  else if sp.bytesWritten ≠ sp.imageSize then
    ({ sp.toIdle with events := sp.events ++ [.error .validateFail] }, .validateFail, none)
  else
    ({ sp with state := .validated, events := sp.events ++ [.validated sp.epoch] }, .ok, none)

/-- `activate`. -/
def activate (epoch : Nat) (sp : SinkSpec) : SinkSpec × SpecRet × Option Nat :=
  if sp.stale epoch then (sp, .stale, none)
  else if sp.state ≠ .validated then (sp, .noSession, none)
  else
    ({ sp with
        nvsCleared := sp.nvsCleared + 1, sessionLive := false,
        events := sp.events ++ [.activated sp.epoch] }, .ok, none)

/-- With the fuel of `write` the guard of the loop is false at its end. -/
theorem sectorLoop_done {n : Nat} {sp : SinkSpec}
    (h : (sp.bytesWritten - sp.sectorsDone * specSectorSize) / specSectorSize ≤ n) :
    (sp.sectorLoop n).bytesWritten - (sp.sectorLoop n).sectorsDone * specSectorSize <
      specSectorSize := by
  induction n generalizing sp with
  | zero => exact (Nat.div_eq_zero_iff_lt (by decide)).mp (Nat.le_zero.mp h)
  | succ n ih =>
    rw [sectorLoop]
    split
    · next hle =>
      apply ih
      have hd := Nat.div_eq_sub_div (by decide : 0 < specSectorSize) hle
      dsimp only
      rw [Nat.add_mul, Nat.one_mul, ← Nat.sub_sub]
      omega
    · next hlt => exact Nat.lt_of_not_le hlt

end SinkSpec

/-! ## The calls of one task -/

/-- A call of the task; a write has `data_len` bytes. -/
inductive ApiCall (α : Type) where
  | sessionOpen (cfg : OtaSinkSessionCfg)
  | write (epoch : Nat) (data : List α)
  | invalidate
  | sessionAbort (epoch : Nat)
  | finish (epoch : Nat)
  | activate (epoch : Nat) (rebootNow : Bool)

/-- The call of the sink; an invalidation is none of the serial caller. -/
def ApiCall.op : ApiCall α → Option (Op α)
  | .sessionOpen cfg => some (.sessionOpen (some cfg))
  | .write epoch data => some (.write epoch (some data))
  | .invalidate => none
  | .sessionAbort epoch => some (.sessionAbort epoch)
  | .finish epoch => some (.finish epoch)
  | .activate epoch rebootNow => some (.activate epoch rebootNow)

/-- The opens among one call. -/
def ApiCall.opens : ApiCall α → Nat
  | .sessionOpen _ => 1
  | _ => 0

/-- The call of the specification; an invalidation returns nothing. -/
def SinkSpec.call (c : ApiCall α) (sp : SinkSpec) : SinkSpec × Option (SpecRet × Option Nat) :=
  match c with
  | .sessionOpen cfg => let r := sp.open cfg.imageSize; (r.1, some r.2)
  | .write epoch data => let r := sp.write epoch data.length; (r.1, some r.2)
  | .invalidate => (sp.invalidate, none)
  | .sessionAbort epoch => let r := sp.abort epoch; (r.1, some r.2)
  | .finish epoch => let r := sp.finish epoch; (r.1, some r.2)
  | .activate epoch _ => let r := sp.activate epoch; (r.1, some r.2)

@[simp] theorem SinkSpec.sectorLoop_nextEpoch (n : Nat) (sp : SinkSpec) :
    (sp.sectorLoop n).nextEpoch = sp.nextEpoch := by
  induction n generalizing sp with
  | zero => rfl
  | succ n ih =>
    rw [SinkSpec.sectorLoop]
    split
    · rw [ih]
    · rfl

@[simp] theorem SinkSpec.settle_nextEpoch (sp : SinkSpec) :
    sp.settle.nextEpoch = sp.nextEpoch := by
  unfold SinkSpec.settle
  split <;> rfl

/-- Only an open takes an epoch. -/
theorem SinkSpec.call_nextEpoch (c : ApiCall α) (sp : SinkSpec) :
    (sp.call c).1.nextEpoch ≤ sp.nextEpoch + c.opens := by
  cases c with
  | sessionOpen cfg =>
    simp only [SinkSpec.call, SinkSpec.open, ApiCall.opens]
    repeat' split
    all_goals simp
  | write epoch data =>
    simp only [SinkSpec.call, SinkSpec.write, ApiCall.opens]
    split <;> simp
  | invalidate => exact Nat.le_refl _
  | sessionAbort epoch =>
    simp only [SinkSpec.call, SinkSpec.abort]
    split <;> exact Nat.le_refl _
  | finish epoch =>
    simp only [SinkSpec.call, SinkSpec.finish]
    repeat' split
    all_goals exact Nat.le_refl _
  | activate epoch rebootNow =>
    simp only [SinkSpec.call, SinkSpec.activate]
    repeat' split
    all_goals exact Nat.le_refl _

/-- The specification and its answers after a sequence of calls. -/
def SinkSpec.run (cs : List (ApiCall α)) : SinkSpec × List (SpecRet × Option Nat) :=
  cs.foldl (fun r c => ((r.1.call c).1, r.2 ++ (r.1.call c).2.toList)) (.start, [])

theorem SinkSpec.run_snoc (cs : List (ApiCall α)) (c : ApiCall α) :
    SinkSpec.run (cs ++ [c]) =
      (((SinkSpec.run cs).1.call c).1, (SinkSpec.run cs).2 ++ ((SinkSpec.run cs).1.call c).2.toList)
      := by
  simp [SinkSpec.run, List.foldl_append]

/-- The state after a call in one piece, from outside a call. A call has at most four sections. -/
def apiStep (B : Board) (c : ApiCall α × Idf) (x : SinkSys α) : Option (SinkSys α) :=
  match x.place with
  | .idle => match c.1.op with
    | none => (sinkCode α B).step .poke x
    | some op => ((sinkCode α B).whole 3 (op, c.2) x.st).map ((sinkCode α B).returnTo (op, c.2) x)
  | _ => none

/-- The sink as one task sees it. -/
def apiSystem (α : Type) (B : Board) : Lib.Lts (SinkSys α) (ApiCall α × Idf) :=
  ⟨(· = sinkInit), apiStep B⟩

/-- What the task reaches, the sink reaches. -/
theorem apiSystem_reach {B : Board} {x : SinkSys α} (h : (apiSystem α B).Reach x) :
    (sinkSystem α B).Reach x := by
  refine h.invariant (fun x hx => .init hx) fun c x x' _ hr hst => ?_
  simp only [apiSystem, apiStep] at hst
  split at hst
  · next hp =>
    split at hst
    · exact .step .poke hr hst
    · obtain ⟨res, hres, rfl⟩ := Option.map_eq_some_iff.mp hst
      exact Lib.Code.whole_reach hr hp hres
  · cases hst

end BleOta
