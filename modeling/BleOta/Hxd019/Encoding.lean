import BleOta.Hxd019.Requests
import Mathlib.Data.Nat.Bitwise

/-!
# The encoding of the full state, against the host test (`host_test_hxd019.py`)

* `acState7`, `acState11`: the frames of the test.
* `FrameBuf`, `buildAcStateInto`: the builder with its buffer and the running index.
  `buildAcStateInto_eq`: what it leaves in the buffer is the frame of `buildAcState`.
* `InRanges`: the states that are accepted. `stateFrame_reference`: the bytes of a frame are those
  of the test. `stateFrame_injective`: a frame has one code group and one state.
* `encoding_lossless`: all of it about the builder and its buffer.
-/

namespace BleOta.Hxd019

/-! ## The frames of the test -/

/-- `chk`. -/
def chk (bs : List Nat) : Nat := bs.foldl (· + ·) 0 &&& 0xFF

/-- `be`. -/
def be (group : Nat) : List Nat := [(group >>> 8) &&& 0xFF, group &&& 0xFF]

/-- `ac_state7`. -/
def acState7 (group temp fan swing swingAuto power key mode : Nat) : List Nat :=
  let b := [0x30, 0x01] ++ be group ++
    [temp, fan, swing, swingAuto, power, key, mode, 0x03, 0x00, 0x00, 0xFF]
  b ++ [chk b]

/-- `ac_state11`. -/
def acState11 (group temp fan swing swingAuto power key mode sleep heat light eco : Nat) :
    List Nat :=
  let b := [0x30, 0x01] ++ be group ++
    [temp, fan, swing, swingAuto, power, key, mode, sleep, heat, light, eco]
  b ++ [chk b]

/-- The frame of the test for a state; the values of the test are bytes, so the temperature of
`MINUS16` is 16 less. -/
def referenceFrame (fmt : Format) (codeGroup : UInt16) (s : AcState) : List Nat :=
  let temp := if fmt.tempEncMinus16 then s.tempC.toNat - 16 else s.tempC.toNat
  if fmt.is11Key then
    acState11 codeGroup.toNat temp s.fan.toNat s.swing.toNat s.swingAuto.toNat s.power.toNat
      s.key.toNat s.mode.toNat s.sleep.toNat s.auxHeat.toNat s.light.toNat s.eco.toNat
  else
    acState7 codeGroup.toNat temp s.fan.toNat s.swing.toNat s.swingAuto.toNat s.power.toNat
      s.key.toNat s.mode.toNat

/-! ## The builder and its buffer -/

/-- `hxd019_frame_t`. -/
@[ext] structure FrameBuf where
  buf : List UInt8
  len : Nat
  size : buf.length = frameMax
  deriving DecidableEq, Repr

namespace FrameBuf

/-- `memset(out, 0, sizeof(*out))`. -/
def zero : FrameBuf := ⟨List.replicate frameMax 0, 0, by decide⟩

/-- `out->buf[i] = b`. -/
def put (i : Nat) (b : UInt8) (out : FrameBuf) : FrameBuf :=
  ⟨out.buf.set i b, out.len, by rw [List.length_set, out.size]⟩

/-- `code_group_to_be(code_group, &out->buf[i])`. -/
def putGroup (i : Nat) (codeGroup : UInt16) (out : FrameBuf) : FrameBuf :=
  (out.put i (codeGroup >>> 8).toUInt8).put (i + 1) (codeGroup &&& 0xFF).toUInt8

end FrameBuf

/-- `hxd019_build_ac_state` with its pointers (`none` is `NULL`): its code, and `*out` after it. -/
def buildAcStateInto (fmt : Format) (codeGroup : UInt16) (state : Option AcState)
    (out : Option FrameBuf) : Except Err Unit × Option FrameBuf :=
  match out with
  | none => (.error .arg, none)
  | some out => match state with
    | none => (.error .arg, some out)
    | some s => match validateState s with
      | .error e => (.error e, some out)
      | .ok () =>
        if s.key < keyPower ∨ keyStrong < s.key then (.error .state, some out)
        else if ¬fmt.is11Key ∧ keyTempDec < s.key then (.error .key7, some out)
        else if s.tempC < (tempRange fmt).1 ∨ (tempRange fmt).2 < s.tempC then
          (.error .temp, some out)
        else
          let out := FrameBuf.zero
          let out := (out.put 0 0x30).put 1 0x01
          let out := out.putGroup 2 codeGroup
          let out := out.put 4 (tempEncode fmt s.tempC)
          let out := (out.put 5 s.fan).put 6 s.swing
          let out := (out.put 7 s.swingAuto).put 8 s.power
          let out := (out.put 9 s.key).put 10 s.mode
          let n := if fmt.is11Key then 15 else 11
          let (out, n) :=
            if ¬fmt.is11Key then
              ((((out.put n 0x03).put (n + 1) 0x00).put (n + 2) 0x00).put (n + 3) 0xFF, n + 4)
            else ((((out.put 11 s.sleep).put 12 s.auxHeat).put 13 s.light).put 14 s.eco, n)
          let out := out.put n (checksum (out.buf.take n))
          (.ok (), some { out with len := n + 1 })

variable {fmt : Format} {codeGroup codeGroup' : UInt16} {s s' : AcState} {out : FrameBuf}

/-- The buffer with a frame of full length. -/
def FrameBuf.ofFrame (f : Frame) (h : f.length = frameMax) : FrameBuf := ⟨f, f.length, h⟩

/-- **The buffer of the builder**: an error leaves it as it was, and else it has the frame. -/
theorem buildAcStateInto_eq (fmt : Format) (codeGroup : UInt16) (s : AcState) (out : FrameBuf) :
    (∃ e, buildAcState fmt codeGroup s = .error e ∧
      buildAcStateInto fmt codeGroup (some s) (some out) = (.error e, some out)) ∨
    (buildAcState fmt codeGroup s = .ok (stateFrame fmt codeGroup s) ∧
      buildAcStateInto fmt codeGroup (some s) (some out) =
        (.ok (), some (.ofFrame (stateFrame fmt codeGroup s) stateFrame_length))) := by
  unfold buildAcState buildAcStateInto
  dsimp only
  cases validateState s with
  | error e => exact .inl ⟨e, rfl, rfl⟩
  | ok u =>
    dsimp only
    split
    · exact .inl ⟨_, rfl, rfl⟩
    split
    · exact .inl ⟨_, rfl, rfl⟩
    split
    · exact .inl ⟨_, rfl, rfl⟩
    · refine .inr ⟨rfl, ?_⟩
      cases fmt
      all_goals
        refine congrArg (fun b => (Except.ok (), some b)) (FrameBuf.ext ?_ rfl)
        -- the bytes one by one: `rfl` would unfold the 17 stores into each other
        simp only [FrameBuf.zero, FrameBuf.put, FrameBuf.putGroup, FrameBuf.ofFrame,
          Format.is11Key, if_true, Bool.false_eq_true, not_false_eq_true, not_true_eq_false,
          if_false, List.replicate_succ, List.replicate_zero, List.set_cons_succ,
          List.set_cons_zero, stateFrame, stateBytes, codeGroupToBe, List.cons_append,
          List.nil_append, List.take_succ_cons, List.take_zero]

/-! ## The states that are accepted -/

/-- Every field is in its range, the key is one of the format and the temperature is in the range of
the format. -/
structure InRanges (fmt : Format) (s : AcState) : Prop where
  fan : 1 ≤ s.fan.toNat ∧ s.fan.toNat ≤ 4
  swing : 1 ≤ s.swing.toNat ∧ s.swing.toNat ≤ 3
  swingAuto : s.swingAuto.toNat ≤ 1
  power : s.power.toNat ≤ 1
  mode : 1 ≤ s.mode.toNat ∧ s.mode.toNat ≤ 5
  flags : s.sleep.toNat ≤ 1 ∧ s.auxHeat.toNat ≤ 1 ∧ s.light.toNat ≤ 1 ∧ s.eco.toNat ≤ 1
  key : 1 ≤ s.key.toNat ∧ s.key.toNat ≤ if fmt.is11Key then 15 else 7
  temp : if fmt.is11Key then 16 ≤ s.tempC.toNat ∧ s.tempC.toNat ≤ 31
    else 19 ≤ s.tempC.toNat ∧ s.tempC.toNat ≤ 30

theorem not_above {hi x : UInt8} : ¬hi < x ↔ x.toNat ≤ hi.toNat := by
  rw [UInt8.not_lt, UInt8.le_iff_toNat_le]

theorem keyOk_iff {key : UInt8} : KeyOk fmt key ↔
    1 ≤ key.toNat ∧ key.toNat ≤ if fmt.is11Key then 15 else 7 := by
  unfold KeyOk
  rw [not_outside]
  cases h : fmt.is11Key
  · simp only [Bool.false_eq_true, not_false_eq_true, true_and, not_above, if_false]
    exact ⟨fun h => ⟨h.1.1, h.2⟩, fun h => ⟨⟨h.1, Nat.le_trans h.2 (by decide)⟩, h.2⟩⟩
  · simp only [not_true_eq_false, false_and, not_false_eq_true, and_true, if_true]
    exact Iff.rfl

theorem tempRange_iff {tempC : UInt8} : TempOk fmt tempC ↔
    if fmt.is11Key then 16 ≤ tempC.toNat ∧ tempC.toNat ≤ 31
    else 19 ≤ tempC.toNat ∧ tempC.toNat ≤ 30 := by
  rw [tempOk_iff]
  cases fmt <;> rfl

theorem accepted_iff : Accepted fmt s ↔ InRanges fmt s := by
  unfold Accepted
  rw [AcState.valid_iff, keyOk_iff, tempRange_iff]
  simp only [not_above, not_or]
  constructor
  · rintro ⟨⟨hfan, hswing, hauto, hpower, hmode, hflags⟩, hkey, htemp⟩
    exact ⟨hfan, hswing, hauto, hpower, hmode, hflags, hkey, htemp⟩
  · intro h
    exact ⟨⟨h.fan, h.swing, h.swingAuto, h.power, h.mode, h.flags⟩, h.key, h.temp⟩

/-! ## The bytes of a frame -/

theorem foldl_add_toNat (buf : List UInt8) (a : UInt8) : (buf.foldl (· + ·) a).toNat =
    (a.toNat + (buf.map UInt8.toNat).foldl (· + ·) 0) % 256 := by
  induction buf generalizing a with
  | nil =>
    have := a.toNat_lt
    simp only [List.foldl_nil, List.map_nil]
    omega
  | cons b buf ih =>
    simp only [List.foldl_cons, List.map_cons]
    rw [ih, UInt8.toNat_add, Nat.add_comm 0, List.foldl_assoc]
    omega

theorem checksum_toNat (buf : List UInt8) : (checksum buf).toNat = chk (buf.map UInt8.toNat) := by
  unfold checksum chk
  rw [foldl_add_toNat, Nat.and_two_pow_sub_one_eq_mod _ 8]
  simp

theorem codeGroupToBe_toNat (group : UInt16) :
    (codeGroupToBe group).map UInt8.toNat = be group.toNat := by
  unfold codeGroupToBe be
  simp [Nat.and_two_pow_sub_one_eq_mod _ 8]

theorem tempEncode_toNat (h : InRanges fmt s) : (tempEncode fmt s.tempC).toNat =
    if fmt.tempEncMinus16 then s.tempC.toNat - 16 else s.tempC.toNat := by
  unfold tempEncode
  split
  next hm =>
    have h11 : fmt.is11Key = true := by
      cases fmt with
      | key7 | key11 => cases hm
      | key11Minus16 => rfl
    have htemp := h.temp
    rw [if_pos h11] at htemp
    exact UInt8.toNat_sub_of_le _ _ (UInt8.le_iff_toNat_le.mpr htemp.1)
  · rfl

/-- The frame of a state is the one of the test. -/
theorem stateFrame_reference (h : InRanges fmt s) :
    (stateFrame fmt codeGroup s).map UInt8.toNat = referenceFrame fmt codeGroup s := by
  have htemp := tempEncode_toNat h
  unfold stateFrame referenceFrame stateBytes acState7 acState11
  rw [List.map_append, List.map_singleton, checksum_toNat]
  rw [← htemp, ← codeGroupToBe_toNat]
  cases fmt <;> rfl

/-- The low 8 bits of the sum of the first 15 bytes. -/
theorem stateFrame_checksum : (stateFrame fmt codeGroup s).getLast? =
    some (checksum ((stateFrame fmt codeGroup s).take 15)) := by
  cases fmt <;> rfl

/-! ## The inputs of a frame -/

/-- The code groups and all that the format carries of the states are equal. -/
def SameInput (fmt : Format) (codeGroup codeGroup' : UInt16) (s s' : AcState) : Prop :=
  codeGroup = codeGroup' ∧ s.tempC = s'.tempC ∧ s.fan = s'.fan ∧ s.swing = s'.swing ∧
    s.swingAuto = s'.swingAuto ∧ s.power = s'.power ∧ s.key = s'.key ∧ s.mode = s'.mode ∧
    (fmt.is11Key → s.sleep = s'.sleep ∧ s.auxHeat = s'.auxHeat ∧ s.light = s'.light ∧
      s.eco = s'.eco)

theorem codeGroupToBe_injective (h : codeGroupToBe codeGroup = codeGroupToBe codeGroup') :
    codeGroup = codeGroup' := by
  have hbe := congrArg (List.map UInt8.toNat) h
  rw [codeGroupToBe_toNat, codeGroupToBe_toNat] at hbe
  unfold be at hbe
  simp only [Nat.and_two_pow_sub_one_eq_mod _ 8, Nat.shiftRight_eq_div_pow, List.cons.injEq] at hbe
  obtain ⟨hhi, hlo, -⟩ := hbe
  have hlt := codeGroup.toNat_lt
  have hlt' := codeGroup'.toNat_lt
  apply UInt16.toNat_inj.mp
  omega

theorem tempEncode_injective {t t' : UInt8} (h : tempEncode fmt t = tempEncode fmt t') :
    t = t' := by
  unfold tempEncode at h
  split at h
  · simpa using h
  · exact h

/-- A frame has one code group and one state. -/
theorem stateFrame_injective
    (h : stateFrame fmt codeGroup s = stateFrame fmt codeGroup' s') :
    SameInput fmt codeGroup codeGroup' s s' := by
  have hpart (i n : Nat) : ((stateFrame fmt codeGroup s).drop i).take n =
      ((stateFrame fmt codeGroup' s').drop i).take n := by rw [h]
  have hgroup : codeGroupToBe codeGroup = codeGroupToBe codeGroup' := by
    cases fmt <;> exact hpart 2 2
  have hfields : [tempEncode fmt s.tempC, s.fan, s.swing, s.swingAuto, s.power, s.key, s.mode] =
      [tempEncode fmt s'.tempC, s'.fan, s'.swing, s'.swingAuto, s'.power, s'.key, s'.mode] := by
    cases fmt <;> exact hpart 4 7
  have hflags (h11 : fmt.is11Key) :
      [s.sleep, s.auxHeat, s.light, s.eco] = [s'.sleep, s'.auxHeat, s'.light, s'.eco] := by
    cases fmt with
    | key7 => cases h11
    | key11 | key11Minus16 => exact hpart 11 4
  simp only [List.cons.injEq, and_true] at hfields hflags
  obtain ⟨htemp, hfan, hswing, hauto, hpower, hkey, hmode⟩ := hfields
  exact ⟨codeGroupToBe_injective hgroup, tempEncode_injective htemp, hfan, hswing, hauto, hpower,
    hkey, hmode, hflags⟩

/-! ## The encoding -/

/-- The buffer has the frame of the test for the state, of 16 bytes, and the last byte is the low 8
bits of the sum of the first 15. -/
structure Encodes (fmt : Format) (codeGroup : UInt16) (s : AcState) (out : FrameBuf) : Prop where
  len : out.len = 16
  reference : out.buf.map UInt8.toNat = referenceFrame fmt codeGroup s
  checksum : out.buf.getLast?.map UInt8.toNat =
    some (((out.buf.take 15).map UInt8.toNat).foldl (· + ·) 0 % 256)

theorem encodes_ofFrame (h : InRanges fmt s) :
    Encodes fmt codeGroup s (.ofFrame (stateFrame fmt codeGroup s) stateFrame_length) := by
  refine ⟨stateFrame_length, stateFrame_reference h, ?_⟩
  unfold FrameBuf.ofFrame
  dsimp only
  rw [stateFrame_checksum, Option.map_some, checksum_toNat]
  exact congrArg some (Nat.and_two_pow_sub_one_eq_mod _ 8)

/-- **The encoding is exact and loses nothing**: a state is accepted exactly if it is in its ranges,
the buffer then has the frame of the test, an error leaves it as it was, and what gives the same
buffer is the same input. -/
theorem encoding_lossless (fmt : Format) (codeGroup : UInt16) (s : AcState) (out : FrameBuf) :
    ((buildAcStateInto fmt codeGroup (some s) (some out)).1 = .ok () ↔ InRanges fmt s) ∧
    (InRanges fmt s → ∃ b, Encodes fmt codeGroup s b ∧
      buildAcStateInto fmt codeGroup (some s) (some out) = (.ok (), some b)) ∧
    (¬InRanges fmt s → ∃ e,
      buildAcStateInto fmt codeGroup (some s) (some out) = (.error e, some out)) ∧
    ∀ codeGroup' s' out' b, InRanges fmt s → InRanges fmt s' →
      buildAcStateInto fmt codeGroup (some s) (some out) = (.ok (), some b) →
      buildAcStateInto fmt codeGroup' (some s') (some out') = (.ok (), some b) →
      SameInput fmt codeGroup codeGroup' s s' := by
  have hok {g : UInt16} {t : AcState} {out : FrameBuf} (ht : InRanges fmt t) :
      buildAcStateInto fmt g (some t) (some out) =
        (.ok (), some (.ofFrame (stateFrame fmt g t) stateFrame_length)) := by
    rcases buildAcStateInto_eq fmt g t out with ⟨e, he, -⟩ | ⟨-, h⟩
    · rw [buildAcState_eq_ok.mpr ⟨accepted_iff.mpr ht, rfl⟩] at he
      cases he
    · exact h
  have herr (hs : ¬InRanges fmt s) :
      ∃ e, buildAcStateInto fmt codeGroup (some s) (some out) = (.error e, some out) := by
    rcases buildAcStateInto_eq fmt codeGroup s out with ⟨e, -, h⟩ | ⟨h, -⟩
    · exact ⟨e, h⟩
    · exact absurd (accepted_iff.mp (buildAcState_eq_ok.mp h).1) hs
  refine ⟨⟨fun h => ?_, fun h => by rw [hok h]⟩, fun h => ⟨_, encodes_ofFrame h, hok h⟩, herr,
    fun codeGroup' s' out' b hs hs' h h' => ?_⟩
  · by_contra hs
    obtain ⟨e, he⟩ := herr hs
    rw [he] at h
    cases h
  · rw [hok hs] at h
    rw [hok hs'] at h'
    apply stateFrame_injective
    have hb : FrameBuf.ofFrame (stateFrame fmt codeGroup s) stateFrame_length = b := by
      simpa using h
    have hb' : FrameBuf.ofFrame (stateFrame fmt codeGroup' s') stateFrame_length = b := by
      simpa using h'
    exact congrArg FrameBuf.buf (hb.trans hb'.symm)

end BleOta.Hxd019
