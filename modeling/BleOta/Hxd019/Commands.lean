import BleOta.Hxd019.Cache

/-!
# All the functions that send (`hxd019_uart.c`, `hxd019_frame.c`)

Besides the functions for air conditioners the driver sends the keys of other devices, the learn
command and the match command. They do not look at the session.

* `buildAv`, `buildLearn`, `buildMatch`: their frames.
* `SendCall`: a call of any function that sends; `SendCall.run`: the call.
* `SendCall.frame`: the frame that the call gives to `hxd019_send_frame` (`SendCall.run_frame`).
* `SendCall.handed`: the frame that the call hands to the UART.
-/

namespace BleOta.Hxd019

/-! ## Frames -/

/-- `hxd019_build_av`; `none` is a `NULL` pointer. -/
def buildAv (fmtIndex : UInt8) (keyCode : Option (UInt8 × UInt8))
    (comCode : Option (UInt8 × UInt8 × UInt8 × UInt8)) : Except Err Frame :=
  match keyCode, comCode with
  | some (k0, k1), some (c0, c1, c2, c3) =>
    let bytes := [0x30, 0x00, fmtIndex, k0, k1, c0, c1, c2, c3]
    .ok (bytes ++ [checksum bytes])
  | _, _ => .error .arg

/-- `hxd019_build_learn`. -/
def buildLearn : Frame := [0x30, 0x20, 0x50]

/-- `hxd019_build_match`. -/
def buildMatch : Frame := [0x30, 0x70, 0xA0]

/-! ## Calls -/

/-- The driver after `hxd019_init`. -/
def Driver.start : Driver := ⟨true, .init, []⟩

/-- A call of a function that sends, or of `hxd019_bind_group`. -/
inductive SendCall where
  | ac (c : Call)
  | sendAvKey (fmtIndex : UInt8) (keyCode : Option (UInt8 × UInt8))
    (comCode : Option (UInt8 × UInt8 × UInt8 × UInt8))
  | startLearn
  | «match»
  deriving DecidableEq, Repr

section

variable (fmt : Format) (tx : Tx) (d : Driver)

/-- `hxd019_send_av_key`. -/
def sendAvKey (fmtIndex : UInt8) (keyCode : Option (UInt8 × UInt8))
    (comCode : Option (UInt8 × UInt8 × UInt8 × UInt8)) : Except Err Unit × Driver :=
  match buildAv fmtIndex keyCode comCode with
  | .error e => (.error e, d)
  | .ok f => sendFrame tx f d

/-- The call, with the outcome `tx` of its transmission. The callbacks of `hxd019_start_learn` and
`hxd019_match` are those of `rx_task`. -/
def SendCall.run : SendCall → Except Err Unit × Driver
  | .ac c => c.run fmt tx d
  | .sendAvKey fmtIndex keyCode comCode => Hxd019.sendAvKey tx d fmtIndex keyCode comCode
  | .startLearn => sendFrame tx buildLearn d
  | .match => sendFrame tx buildMatch d

/-- The frame that a function for air conditioners gives to `hxd019_send_frame`. -/
def Call.frame (c : Call) : Option Frame :=
  match c with
  | .bindGroup _ => none
  | .acSimple funcCode =>
    if d.sess.codeGroup = 0 then none else some (buildAcSimple d.sess.codeGroup funcCode)
  | c => (c.request fmt d.sess.baseState).bind fun (key, mutate) =>
      (buildAcState fmt d.sess.codeGroup (keyedState key mutate d.sess.baseState)).toOption

/-- The frame that a call gives to `hxd019_send_frame`. -/
def SendCall.frame : SendCall → Option Frame
  | .ac c => c.frame fmt d
  | .sendAvKey fmtIndex keyCode comCode => (buildAv fmtIndex keyCode comCode).toOption
  | .startLearn => some buildLearn
  | .match => some buildMatch

/-- Whether `hxd019_send_frame` comes to `uart_write_bytes`. -/
def Driver.comesToUart (f : Frame) : Bool :=
  f.length ≠ 0 ∧ f.length ≤ frameMax ∧ d.txMutex ∧ tx.mutexTaken

/-- The frame that a call hands to `uart_write_bytes`, also if that writes less of it. -/
def SendCall.handed (c : SendCall) : Option Frame :=
  (c.frame fmt d).filter (d.comesToUart tx)

end

variable {fmt : Format} {tx : Tx} {d : Driver} {c : Call}

theorem Call.frame_sendsState (hc : c.SendsState = true) : c.frame fmt d =
    (c.request fmt d.sess.baseState).bind fun (key, mutate) =>
      (buildAcState fmt d.sess.codeGroup (keyedState key mutate d.sess.baseState)).toOption := by
  cases c with
  | bindGroup | acSimple => cases hc
  | _ => rfl

/-- **`SendCall.frame` is the frame of the call**: without one the call sends nothing, and with one
it returns what `hxd019_send_frame` returns, and its log is the one of the transmission. -/
theorem SendCall.run_frame (c : SendCall) : match c.frame fmt d with
    | none => (c.run fmt tx d).2.log = d.log ∨ ∃ codeGroup, c = .ac (.bindGroup codeGroup)
    | some f => (c.run fmt tx d).1 = (sendFrame tx f d).1 ∧
        (c.run fmt tx d).2.log = (sendFrame tx f d).2.log := by
  cases c with
  | ac c =>
    cases c using Call.casesSends with
    | bindGroup codeGroup => exact .inr ⟨codeGroup, rfl⟩
    | acSimple funcCode =>
      simp only [SendCall.frame, SendCall.run, Call.frame, Call.run, Hxd019.acSimple]
      split
      next h =>
        split at h
        · exact .inl (by rw [if_pos ‹_›])
        · cases h
      next f h =>
        split at h
        · cases h
        · cases h
          rw [if_neg ‹_›]
          exact ⟨rfl, rfl⟩
    | sendsState c hc =>
      simp only [SendCall.frame, SendCall.run, Call.frame_sendsState hc, Call.run_sendsState hc]
      cases c.request fmt d.sess.baseState with
      | none => exact .inl rfl
      | some req =>
        obtain ⟨key, mutate⟩ := req
        simp only [Option.bind_some, sendStateWithKey]
        cases buildAcState fmt d.sess.codeGroup (keyedState key mutate d.sess.baseState) with
        | error e => exact .inl rfl
        | ok f =>
          simp only [Except.toOption]
          rcases sendFrame_cases tx f d with hs | hs
          · rw [hs]
            exact ⟨rfl, rfl⟩
          · rw [hs]
            exact ⟨rfl, rfl⟩
  | sendAvKey fmtIndex keyCode comCode =>
    simp only [SendCall.frame, SendCall.run, Hxd019.sendAvKey]
    cases buildAv fmtIndex keyCode comCode with
    | error e => exact .inl rfl
    | ok f => exact ⟨rfl, rfl⟩
  | startLearn => exact ⟨rfl, rfl⟩
  | «match» => exact ⟨rfl, rfl⟩

/-- A transmission that succeeds has handed its frame to the UART. -/
theorem comesToUart_of_sent {f : Frame} (h : (sendFrame tx f d).1 = .ok ()) :
    d.comesToUart tx f = true := by
  unfold sendFrame at h
  split at h
  · cases h
  next hok =>
    simp only [Driver.txError, decide_eq_true_eq, not_or] at hok
    simp only [Driver.comesToUart, decide_eq_true_eq]
    obtain ⟨h1, h2, h3, h4, -⟩ := hok
    exact ⟨h1, Nat.le_of_not_lt h2, by simpa using h3, by simpa using h4⟩

end BleOta.Hxd019
