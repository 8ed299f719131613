import BleOta.Hxd019.Encoding
import BleOta.Hxd019.Commands
import BleOta.Hxd019.Receive
import BleOta.Lib.Codec

/-!
# What the chip reads from the UART

The frames have no end mark. The second byte tells the rule of a frame and with it its length, so
the chip can read the commands one after the other, as the rules of the source describe the frames
(`hxd019_protocol.h`).

* `WireCommand`: what a frame says; `WireCommand.frame`: its frame.
* `readFrame`: the reading of one frame. `commandCodec`: it gives back the command, whatever
  follows.
* `SendCall.command`: the command that a call asks for.
* `wire_commands`: over any run of calls, the chip reads the commands of the calls that return
  `HXD019_OK`, in order, and nothing else.
-/

namespace BleOta.Hxd019

/-! ## Commands -/

/-- An accepted state, as far as the format carries it. -/
structure CarriedState (fmt : Format) where
  state : AcState
  accepted : Accepted fmt state
  carried : fmt.is11Key = false →
    state.sleep = 0 ∧ state.auxHeat = 0 ∧ state.light = 0 ∧ state.eco = 0

/-- What a frame says: rule one; rules two and three; rule four; learn; match. -/
inductive WireCommand (fmt : Format) where
  | acSimple (codeGroup : UInt16) (funcCode : UInt8)
  | acState (codeGroup : UInt16) (s : CarriedState fmt)
  | av (fmtIndex k0 k1 c0 c1 c2 c3 : UInt8)
  | learn
  | «match»

variable {fmt : Format}

/-- The frame of rule four. -/
def avFrame (fmtIndex k0 k1 c0 c1 c2 c3 : UInt8) : Frame :=
  let bytes := [0x30, 0x00, fmtIndex, k0, k1, c0, c1, c2, c3]
  bytes ++ [checksum bytes]

/-- The frame of a command. -/
def WireCommand.frame : WireCommand fmt → Frame
  | .acSimple codeGroup funcCode => buildAcSimple codeGroup funcCode
  | .acState codeGroup s => stateFrame fmt codeGroup s.state
  | .av fmtIndex k0 k1 c0 c1 c2 c3 => avFrame fmtIndex k0 k1 c0 c1 c2 c3
  | .learn => buildLearn
  | .match => buildMatch

/-- What the format carries of a state. -/
def AcState.carry (fmt : Format) (s : AcState) : AcState :=
  if fmt.is11Key then s else { s with sleep := 0, auxHeat := 0, light := 0, eco := 0 }

theorem stateFrame_carry (codeGroup : UInt16) (s : AcState) :
    stateFrame fmt codeGroup (s.carry fmt) = stateFrame fmt codeGroup s := by
  cases fmt <;> rfl

theorem Accepted.carry {s : AcState} (h : Accepted fmt s) : Accepted fmt (s.carry fmt) := by
  rw [accepted_iff] at h ⊢
  unfold AcState.carry
  split
  · exact h
  · exact ⟨h.fan, h.swing, h.swingAuto, h.power, h.mode, by simp, h.key, h.temp⟩

/-- An accepted state as the format carries it. -/
def carriedState (fmt : Format) (s : AcState) : Option (CarriedState fmt) :=
  if h : Accepted fmt s then
    some ⟨s.carry fmt, h.carry, fun h7 => by simp [AcState.carry, h7]⟩
  else none

/-! ## The reading of a frame -/

/-- The temperature of its byte. -/
def tempDecode (fmt : Format) (b : UInt8) : UInt8 := if fmt.tempEncMinus16 then b + 16 else b

/-- The state of its bytes, and whether a frame of the format ends so. -/
def stateOfBytes (fmt : Format) (temp fan swing swingAuto power key mode x0 x1 x2 x3 : UInt8) :
    Option AcState :=
  let s : AcState := ⟨tempDecode fmt temp, fan, swing, swingAuto, power, key, mode, 0, 0, 0, 0⟩
  if fmt.is11Key then some { s with sleep := x0, auxHeat := x1, light := x2, eco := x3 }
  else if [x0, x1, x2, x3] = [0x03, 0x00, 0x00, 0xFF] then some s
  else none

/-- After `30 06`. -/
def readSimple : List UInt8 → Option (WireCommand fmt × List UInt8)
  | hi :: lo :: funcCode :: rest => some (.acSimple (groupOf hi lo) funcCode, rest)
  | _ => none

/-- After `30 00`. -/
def readAv : List UInt8 → Option (WireCommand fmt × List UInt8)
  | fmtIndex :: k0 :: k1 :: c0 :: c1 :: c2 :: c3 :: chk :: rest =>
    if chk = checksum [0x30, 0x00, fmtIndex, k0, k1, c0, c1, c2, c3] then
      some (.av fmtIndex k0 k1 c0 c1 c2 c3, rest)
    else none
  | _ => none

/-- After `30 01`. -/
def readState (fmt : Format) : List UInt8 → Option (WireCommand fmt × List UInt8)
  | hi :: lo :: temp :: fan :: swing :: swingAuto :: power :: key :: mode :: x0 :: x1 :: x2 ::
      x3 :: chk :: rest =>
    if chk = checksum [0x30, 0x01, hi, lo, temp, fan, swing, swingAuto, power, key, mode, x0, x1,
        x2, x3] then
      ((stateOfBytes fmt temp fan swing swingAuto power key mode x0 x1 x2 x3).bind
        (carriedState fmt)).map fun s => (.acState (groupOf hi lo) s, rest)
    else none
  | _ => none

/-- After `30 20` and `30 70`. -/
def readFixed (b : UInt8) (c : WireCommand fmt) : List UInt8 → Option (WireCommand fmt × List UInt8)
  | b' :: rest => if b' = b then some (c, rest) else none
  | [] => none

/-- The reading of a frame: the first two bytes give its rule. -/
def readFrame (fmt : Format) : List UInt8 → Option (WireCommand fmt × List UInt8)
  | b0 :: b1 :: rest =>
    if b0 ≠ 0x30 then none
    else if b1 = 0x06 then readSimple rest
    else if b1 = 0x00 then readAv rest
    else if b1 = 0x01 then readState fmt rest
    else if b1 = 0x20 then readFixed 0x50 .learn rest
    else if b1 = 0x70 then readFixed 0xA0 .match rest
    else none
  | _ => none

theorem groupOf_codeGroup (g : UInt16) :
    groupOf (g >>> 8).toUInt8 (g &&& 0xFF).toUInt8 = g := by
  have hbe : [(g >>> 8).toUInt8.toNat, (g &&& 0xFF).toUInt8.toNat] = be g.toNat :=
    codeGroupToBe_toNat g
  unfold be at hbe
  simp only [Nat.and_two_pow_sub_one_eq_mod _ 8, Nat.shiftRight_eq_div_pow, List.cons.injEq] at hbe
  obtain ⟨hhi, hlo, -⟩ := hbe
  have hlt := g.toNat_lt
  apply UInt16.toNat_inj.mp
  rw [groupOf_toNat]
  omega

theorem tempDecode_encode (t : UInt8) : tempDecode fmt (tempEncode fmt t) = t := by
  unfold tempDecode tempEncode
  cases fmt.tempEncMinus16 <;> simp

theorem carriedState_carried (s : CarriedState fmt) : carriedState fmt s.state = some s := by
  obtain ⟨s, ha, hc⟩ := s
  unfold carriedState
  rw [dif_pos ha]
  congr 2
  unfold AcState.carry
  cases h : fmt.is11Key with
  | true => rfl
  | false =>
    cases s
    obtain ⟨rfl, rfl, rfl, rfl⟩ := hc h
    rfl

/-- The bytes of a carried state are read back. -/
theorem stateOfBytes_carried (s : CarriedState fmt) :
    stateOfBytes fmt (tempEncode fmt s.state.tempC) s.state.fan s.state.swing s.state.swingAuto
      s.state.power s.state.key s.state.mode (if fmt.is11Key then s.state.sleep else 0x03)
      (if fmt.is11Key then s.state.auxHeat else 0x00) (if fmt.is11Key then s.state.light else 0x00)
      (if fmt.is11Key then s.state.eco else 0xFF) = some s.state := by
  obtain ⟨s, -, hc⟩ := s
  unfold stateOfBytes
  dsimp only
  rw [tempDecode_encode]
  cases h : fmt.is11Key with
  | true => rfl
  | false =>
    cases s
    obtain ⟨rfl, rfl, rfl, rfl⟩ := hc h
    rfl

/-- **A frame is read back**, whatever follows it. -/
theorem readFrame_frame (c : WireCommand fmt) (rest : List UInt8) :
    readFrame fmt (c.frame ++ rest) = some (c, rest) := by
  cases c with
  | acSimple codeGroup funcCode =>
    show some (WireCommand.acSimple (groupOf _ _) funcCode, rest) = _
    rw [groupOf_codeGroup]
  | acState codeGroup s =>
    have hread : readFrame fmt ((WireCommand.acState codeGroup s).frame ++ rest) =
        ((stateOfBytes fmt (tempEncode fmt s.state.tempC) s.state.fan s.state.swing
          s.state.swingAuto s.state.power s.state.key s.state.mode
          (if fmt.is11Key then s.state.sleep else 0x03)
          (if fmt.is11Key then s.state.auxHeat else 0x00)
          (if fmt.is11Key then s.state.light else 0x00)
          (if fmt.is11Key then s.state.eco else 0xFF)).bind (carriedState fmt)).map fun s =>
            (.acState (groupOf (codeGroup >>> 8).toUInt8 (codeGroup &&& 0xFF).toUInt8) s,
              rest) := by
      cases fmt <;> exact if_pos rfl
    rw [hread, stateOfBytes_carried, Option.bind_some, carriedState_carried, Option.map_some,
      groupOf_codeGroup]
  | av => exact if_pos rfl
  | learn | «match» => rfl

theorem WireCommand.frame_ne_nil (c : WireCommand fmt) : c.frame ≠ [] := by
  cases c <;> exact List.cons_ne_nil _ _

/-- The commands as a code. -/
def commandCodec (fmt : Format) : Lib.Codec (WireCommand fmt) UInt8 where
  encode := WireCommand.frame
  decode := readFrame fmt
  decode_encode := readFrame_frame
  encode_ne_nil := WireCommand.frame_ne_nil

/-! ## The command of a call -/

section

variable (fmt) (d : Driver)

/-- The command of a function for air conditioners. -/
def Call.command (c : Call) : Option (WireCommand fmt) :=
  match c with
  | .bindGroup _ => none
  | .acSimple funcCode =>
    if d.sess.codeGroup = 0 then none else some (.acSimple d.sess.codeGroup funcCode)
  | c => (c.request fmt d.sess.baseState).bind fun (key, mutate) =>
      (carriedState fmt (keyedState key mutate d.sess.baseState)).map (.acState d.sess.codeGroup)

/-- The command that a call asks for. -/
def SendCall.command : SendCall → Option (WireCommand fmt)
  | .ac c => c.command fmt d
  | .sendAvKey fmtIndex (some (k0, k1)) (some (c0, c1, c2, c3)) =>
    some (.av fmtIndex k0 k1 c0 c1 c2 c3)
  | .sendAvKey _ _ _ => none
  | .startLearn => some .learn
  | .match => some .match

end

variable {tx : Tx} {d : Driver}

theorem Call.command_sendsState {c : Call} (hc : c.SendsState = true) : c.command fmt d =
    (c.request fmt d.sess.baseState).bind fun (key, mutate) =>
      (carriedState fmt (keyedState key mutate d.sess.baseState)).map
        (.acState d.sess.codeGroup) := by
  cases c with
  | bindGroup | acSimple => cases hc
  | _ => rfl

/-- The frame of a state, if it is accepted. -/
theorem buildAcState_carried (codeGroup : UInt16) (s : AcState) :
    (buildAcState fmt codeGroup s).toOption =
      ((carriedState fmt s).map (WireCommand.acState codeGroup)).map WireCommand.frame := by
  by_cases h : Accepted fmt s
  · rw [buildAcState_eq_ok.mpr ⟨h, rfl⟩, carriedState, dif_pos h, ← stateFrame_carry]
    rfl
  · have herr : ∃ e, buildAcState fmt codeGroup s = .error e := buildAcState_eq_error h
    obtain ⟨e, he⟩ := herr
    rw [he, carriedState, dif_neg h]
    rfl

/-- **The frame of a call** is the frame of its command. -/
theorem SendCall.frame_command (c : SendCall) :
    c.frame fmt d = (c.command fmt d).map WireCommand.frame := by
  cases c with
  | ac c =>
    cases c using Call.casesSends with
    | bindGroup => rfl
    | acSimple funcCode =>
      simp only [SendCall.frame, SendCall.command, Call.frame, Call.command]
      split <;> rfl
    | sendsState c hc =>
      simp only [SendCall.frame, SendCall.command, Call.frame_sendsState hc,
        Call.command_sendsState hc, buildAcState_carried]
      cases c.request fmt d.sess.baseState <;> rfl
  | sendAvKey fmtIndex keyCode comCode =>
    rcases keyCode with - | ⟨k0, k1⟩
    · rfl
    · rcases comCode with - | ⟨c0, c1, c2, c3⟩ <;> rfl
  | startLearn | «match» => rfl

/-! ## Runs -/

section

variable (fmt) (d : Driver)

/-- The bytes that a call puts on the UART: as many of its frame as `uart_write_bytes` says. -/
def SendCall.bytes (tx : Tx) (c : SendCall) : List UInt8 :=
  ((c.handed fmt tx d).map (·.take tx.written.toNat)).getD []

/-- The bytes that the calls put on the UART, from the state `d` of the driver. -/
def wire : List (SendCall × Tx) → Driver → List UInt8
  | [], _ => []
  | (c, tx) :: cs, d => c.bytes fmt d tx ++ wire cs (c.run fmt tx d).2

/-- The commands of the calls that return `HXD019_OK`. -/
def sentCommands : List (SendCall × Tx) → Driver → List (WireCommand fmt)
  | [], _ => []
  | (c, tx) :: cs, d =>
    (if (c.run fmt tx d).1 = .ok () then (c.command fmt d).toList else []) ++
      sentCommands cs (c.run fmt tx d).2

/-- `uart_write_bytes` takes all of the frames or nothing: without a buffer it returns when all is
written, or -1. -/
def WritesAll : List (SendCall × Tx) → Driver → Prop
  | [], _ => True
  | (c, tx) :: cs, d =>
    (∀ f ∈ c.handed fmt tx d, tx.written = f.length ∨ tx.written ≤ 0) ∧
      WritesAll cs (c.run fmt tx d).2

end

/-- A transmission that comes to the UART and is written whole succeeds. -/
theorem sendFrame_of_written {f : Frame} (h : d.comesToUart tx f = true)
    (hw : tx.written = f.length) : (sendFrame tx f d).1 = .ok () := by
  simp only [Driver.comesToUart, decide_eq_true_eq] at h
  obtain ⟨h1, h2, h3, h4⟩ := h
  have htx : d.txError tx f = false := by
    simp only [Driver.txError, decide_eq_false_iff_not, not_or]
    exact ⟨h1, Nat.not_lt_of_le h2, by simpa using h3, by simpa using h4, fun hx => hx hw⟩
  rw [sendFrame_of_not_txError htx]

/-- A transmission of which nothing is written fails. -/
theorem sendFrame_of_unwritten {f : Frame} (hf : f ≠ []) (hw : tx.written ≤ 0) :
    (sendFrame tx f d).1 ≠ .ok () := by
  have hpos := List.length_pos_iff.mpr hf
  have htx : d.txError tx f = true := by
    simp only [Driver.txError, decide_eq_true_eq]
    exact .inr (.inr (.inr (.inr (by omega))))
  rw [sendFrame_of_txError htx]
  rintro ⟨⟩

/-- What one call puts on the UART: the frame of its command, if it returns `HXD019_OK`. -/
theorem SendCall.bytes_command (c : SendCall)
    (h : ∀ f ∈ c.handed fmt tx d, tx.written = f.length ∨ tx.written ≤ 0) :
    c.bytes fmt d tx = (if (c.run fmt tx d).1 = .ok () then (c.command fmt d).toList
      else []).flatMap WireCommand.frame := by
  have hrun := @SendCall.run_frame fmt tx d c
  unfold SendCall.bytes SendCall.handed at *
  rw [c.frame_command] at *
  cases hm : c.command fmt d with
  | none => simp
  | some m =>
    rw [hm, Option.map_some] at hrun h
    rw [hrun.1, Option.map_some]
    by_cases hu : d.comesToUart tx m.frame = true
    · rw [Option.filter_some_pos hu] at h
      rw [Option.filter_some_pos hu]
      rcases h m.frame rfl with hw | hw
      · rw [if_pos (sendFrame_of_written hu hw), hw]
        simp
      · rw [if_neg (sendFrame_of_unwritten m.frame_ne_nil hw)]
        simp [Int.toNat_of_nonpos hw]
    · rw [Option.filter_some_neg (Bool.eq_false_of_not_eq_true hu),
        if_neg fun hok => hu (comesToUart_of_sent hok)]
      rfl

theorem wire_eq {cs : List (SendCall × Tx)} (h : WritesAll fmt cs d) :
    wire fmt cs d = (sentCommands fmt cs d).flatMap WireCommand.frame := by
  induction cs generalizing d with
  | nil => rfl
  | cons ct cs ih =>
    obtain ⟨c, tx⟩ := ct
    rw [wire, sentCommands, List.flatMap_append, c.bytes_command h.1, ih h.2]

/-- **The chip reads what was sent**: over any run of calls, from any state of the driver, the bytes
on the UART are read as the commands of the calls that return `HXD019_OK`, in order, and as nothing
else. -/
theorem wire_commands {cs : List (SendCall × Tx)} (h : WritesAll fmt cs d) :
    (commandCodec fmt).readAll (wire fmt cs d) = some (sentCommands fmt cs d) := by
  rw [wire_eq h]
  exact (commandCodec fmt).readAll_flatMap _

/-- A bind, a learn command, a key that the format does not have, and a state. -/
theorem wire_commands_learn : ∃ s : CarriedState .key7,
    s.state = { acStateDefault with power := powerOn, light := 0 } ∧
    (commandCodec .key7).readAll (wire .key7 [(.ac (.bindGroup 830), ⟨true, 0⟩),
      (.startLearn, ⟨true, 3⟩), (.ac (.acSleep true), ⟨true, 16⟩),
      (.ac (.acPower true), ⟨true, 16⟩)] .start) = some [.learn, .acState 830 s] := by
  refine ⟨⟨{ acStateDefault with power := powerOn, light := 0 }, by decide, by decide⟩, rfl, ?_⟩
  refine wire_commands ⟨?_, ?_, ?_, ?_, trivial⟩
  · rintro f ⟨⟩
  · rintro f ⟨⟩
    exact .inl rfl
  · rintro f ⟨⟩
  · rintro f ⟨⟩
    exact .inl rfl

end BleOta.Hxd019
