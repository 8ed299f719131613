/-!
# Frames of the HXD019 remote control chip (`hxd019_frame.c`, `hxd019_types.h`)

The full state of an air conditioner and the frames that carry it. The format of the frame is a
build option.

* `Format`: the three formats of `Kconfig`.
* `AcState`, `acStateDefault`: the state of the air conditioner.
* `buildAcState`: the frame of a state, or the error of the first check that fails.
* `Accepted`: the states that have a frame (`buildAcState_eq_ok`).
-/

namespace BleOta.Hxd019

/-! ## Types and constants -/

/-- The formats: 7 keys, 11 keys, and 11 keys with the temperature less 16
(`HXD019_TEMP_ENC_MINUS16` depends on `HXD019_STATE_FMT_11KEY`). -/
inductive Format where
  | key7
  | key11
  | key11Minus16
  deriving DecidableEq, Repr

/-- `HXD019_FMT_IS_11KEY`. -/
def Format.is11Key : Format → Bool
  | .key7 => false
  | _ => true

/-- `HXD019_TEMP_ENC_MINUS16_EN`. -/
def Format.tempEncMinus16 : Format → Bool
  | .key11Minus16 => true
  | _ => false

/-- The errors of `hxd019_err_t`. -/
inductive Err where
  | arg
  | temp
  | state
  | key7
  | noent
  deriving DecidableEq, Repr

/-- `hxd019_ac_state_t`. -/
structure AcState where
  tempC : UInt8
  fan : UInt8
  swing : UInt8
  swingAuto : UInt8
  power : UInt8
  key : UInt8
  mode : UInt8
  sleep : UInt8
  auxHeat : UInt8
  light : UInt8
  eco : UInt8
  deriving DecidableEq, Repr

/-- The `len` bytes of `hxd019_frame_t`. -/
abbrev Frame : Type := List UInt8

/-- `HXD019_FRAME_MAX`. -/
abbrev frameMax : Nat := 16

abbrev temp7MinC : UInt8 := 19
abbrev temp7MaxC : UInt8 := 30
abbrev temp11MinC : UInt8 := 16
abbrev temp11MaxC : UInt8 := 31
abbrev tempDefault : UInt8 := 25
abbrev fanAuto : UInt8 := 0x01
abbrev fanHigh : UInt8 := 0x04
abbrev swingUp : UInt8 := 0x01
abbrev swingMid : UInt8 := 0x02
abbrev swingDown : UInt8 := 0x03
abbrev lrswingOff : UInt8 := 0x00
abbrev lrswingOn : UInt8 := 0x01
abbrev powerOff : UInt8 := 0x00
abbrev powerOn : UInt8 := 0x01
abbrev keyPower : UInt8 := 0x01
abbrev keyMode : UInt8 := 0x02
abbrev keyFan : UInt8 := 0x03
abbrev keySwing : UInt8 := 0x04
abbrev keyLrswing : UInt8 := 0x05
abbrev keyTempInc : UInt8 := 0x06
abbrev keyTempDec : UInt8 := 0x07
abbrev keySleep : UInt8 := 0x08
abbrev keyHeat : UInt8 := 0x09
abbrev keyLight : UInt8 := 0x0A
abbrev keyEco : UInt8 := 0x0B
abbrev keyStrong : UInt8 := 0x0F
abbrev modeAuto : UInt8 := 0x01
abbrev modeHeat : UInt8 := 0x05

/-- `hxd019_ac_state_default`. -/
def acStateDefault : AcState where
  tempC := tempDefault
  fan := fanAuto
  swing := swingMid
  swingAuto := lrswingOn
  power := powerOff
  key := keyPower
  mode := modeAuto
  sleep := 0
  auxHeat := 0
  light := 1
  eco := 0

/-! ## Frames -/

/-- `hxd019_checksum`. -/
def checksum (buf : List UInt8) : UInt8 := buf.foldl (· + ·) 0

/-- `code_group_to_be`. -/
def codeGroupToBe (group : UInt16) : List UInt8 := [(group >>> 8).toUInt8, (group &&& 0xFF).toUInt8]

/-- `hxd019_build_ac_simple`. -/
def buildAcSimple (codeGroup : UInt16) (funcCode : UInt8) : Frame :=
  [0x30, 0x06] ++ codeGroupToBe codeGroup ++ [funcCode]

/-- `validate_state`. -/
def validateState (s : AcState) : Except Err Unit :=
  if s.fan < fanAuto ∨ fanHigh < s.fan then .error .state
  else if s.swing < swingUp ∨ swingDown < s.swing then .error .state
  else if lrswingOn < s.swingAuto then .error .state
  else if powerOn < s.power then .error .state
  else if s.mode < modeAuto ∨ modeHeat < s.mode then .error .state
  else if 1 < s.sleep ∨ 1 < s.auxHeat ∨ 1 < s.light ∨ 1 < s.eco then .error .state
  else .ok ()

section

variable (fmt : Format)

/-- `temp_encode`. -/
def tempEncode (tempC : UInt8) : UInt8 := if fmt.tempEncMinus16 then tempC - 16 else tempC

/-- `temp_min` and `temp_max` of `hxd019_build_ac_state`. -/
def tempRange : UInt8 × UInt8 :=
  if fmt.is11Key then (temp11MinC, temp11MaxC) else (temp7MinC, temp7MaxC)

/-- The frame without the checksum. -/
def stateBytes (codeGroup : UInt16) (s : AcState) : List UInt8 :=
  [0x30, 0x01] ++ codeGroupToBe codeGroup ++
    [tempEncode fmt s.tempC, s.fan, s.swing, s.swingAuto, s.power, s.key, s.mode] ++
    if fmt.is11Key then [s.sleep, s.auxHeat, s.light, s.eco] else [0x03, 0x00, 0x00, 0xFF]

/-- `hxd019_build_ac_state`. -/
def buildAcState (codeGroup : UInt16) (s : AcState) : Except Err Frame :=
  match validateState s with
  | .error e => .error e
  | .ok () =>
    if s.key < keyPower ∨ keyStrong < s.key then .error .state
    else if ¬fmt.is11Key ∧ keyTempDec < s.key then .error .key7
    else if s.tempC < (tempRange fmt).1 ∨ (tempRange fmt).2 < s.tempC then .error .temp
    else
      let bytes := stateBytes fmt codeGroup s
      .ok (bytes ++ [checksum bytes])

/-! ## The states that have a frame -/

/-- The fields that `validate_state` looks at are in their ranges. -/
def AcState.Valid (s : AcState) : Prop := validateState s = .ok ()

instance (s : AcState) : Decidable s.Valid :=
  match h : validateState s with
  | .ok () => .isTrue h
  | .error _ => .isFalse (by simp [AcState.Valid, h])

/-- The key is one of the format. -/
def KeyOk (key : UInt8) : Prop :=
  ¬(key < keyPower ∨ keyStrong < key) ∧ ¬(¬fmt.is11Key ∧ keyTempDec < key)

/-- The temperature is in the range of the format. -/
def TempOk (tempC : UInt8) : Prop := ¬(tempC < (tempRange fmt).1 ∨ (tempRange fmt).2 < tempC)

/-- The states that `buildAcState` accepts. -/
def Accepted (s : AcState) : Prop := s.Valid ∧ KeyOk fmt s.key ∧ TempOk fmt s.tempC

instance (key : UInt8) : Decidable (KeyOk fmt key) := by
  unfold KeyOk
  infer_instance

instance (tempC : UInt8) : Decidable (TempOk fmt tempC) := by
  unfold TempOk
  infer_instance

instance (s : AcState) : Decidable (Accepted fmt s) := by
  unfold Accepted
  infer_instance

/-- The frame of an accepted state. -/
def stateFrame (codeGroup : UInt16) (s : AcState) : Frame :=
  stateBytes fmt codeGroup s ++ [checksum (stateBytes fmt codeGroup s)]

end

variable {fmt : Format} {codeGroup : UInt16} {s : AcState} {f : Frame}

theorem buildAcState_eq_ok :
    buildAcState fmt codeGroup s = .ok f ↔ Accepted fmt s ∧ f = stateFrame fmt codeGroup s := by
  unfold buildAcState Accepted AcState.Valid KeyOk TempOk
  cases validateState s with
  | error e => exact ⟨nofun, fun h => nomatch h.1.1⟩
  | ok u =>
    dsimp only
    by_cases hkey : s.key < keyPower ∨ keyStrong < s.key
    · rw [if_pos hkey]
      exact ⟨nofun, fun h => absurd hkey h.1.2.1.1⟩
    rw [if_neg hkey]
    by_cases h7 : ¬fmt.is11Key ∧ keyTempDec < s.key
    · rw [if_pos h7]
      exact ⟨nofun, fun h => absurd h7 h.1.2.1.2⟩
    rw [if_neg h7]
    by_cases htemp : s.tempC < (tempRange fmt).1 ∨ (tempRange fmt).2 < s.tempC
    · rw [if_pos htemp]
      exact ⟨nofun, fun h => absurd htemp h.1.2.2⟩
    rw [if_neg htemp]
    constructor
    · intro h
      cases h
      exact ⟨⟨rfl, ⟨hkey, h7⟩, htemp⟩, rfl⟩
    · rintro ⟨-, rfl⟩
      rfl

theorem stateFrame_length : (stateFrame fmt codeGroup s).length = frameMax := by
  cases fmt <;> rfl

/-- A frame of rule two or three, which carries a full state. -/
def IsStateFrame (f : Frame) : Bool := f.take 2 == [0x30, 0x01]

theorem stateFrame_isStateFrame : IsStateFrame (stateFrame fmt codeGroup s) = true := by
  cases fmt <;> rfl

theorem acStateDefault_accepted : Accepted fmt acStateDefault := by
  cases fmt <;> decide

end BleOta.Hxd019
