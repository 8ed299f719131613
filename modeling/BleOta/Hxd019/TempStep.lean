import BleOta.Hxd019.Requests

/-!
# The temperature step (`hxd019_ac_temp_step`)

The step is clamped to the widest range, 16 to 31 degrees, while the frame with 7 keys has 19 to 30
degrees only.

* `clampedTemp`: the temperature of the step in the range of the format.
* `steppedTemp_toNat`: the temperature that the code requests.
* `stepClamps_iff`: for which states and steps the request is `clampedTemp`.
-/

namespace BleOta.Hxd019

variable {fmt : Format} {tx : Tx} {d : Driver} {delta : Int8} {base : AcState}

/-- The temperature of a step, not clamped. -/
def stepTarget (delta : Int8) (base : AcState) : Int := base.tempC.toNat + delta.toInt

/-- The temperature of a step in the range of the format. -/
def clampedTemp (fmt : Format) (delta : Int8) (base : AcState) : UInt8 :=
  UInt8.ofNat (max ((tempRange fmt).1.toNat : Int)
    (min ((tempRange fmt).2.toNat : Int) (stepTarget delta base))).toNat

/-- The state of a step in the range of the format. -/
def clampedState (fmt : Format) (delta : Int8) (base : AcState) : AcState :=
  keyedState (stepKey delta) (some (.temp (clampedTemp fmt delta base))) base

/-- `hxd019_send_frame` sends a full-state frame. -/
def UartWorks (tx : Tx) (d : Driver) : Prop :=
  d.txMutex = true ∧ tx.mutexTaken = true ∧ tx.written = frameMax

/-- The step is clamped: whatever the UART does, it does not return `HXD019_ERR_TEMP`; and when the
UART works, it sends and caches the clamped temperature. -/
def StepClamps (fmt : Format) (d : Driver) (delta : Int8) : Prop :=
  ∀ tx, (acTempStep fmt tx d delta).1 ≠ .error .temp ∧
    (UartWorks tx d → acTempStep fmt tx d delta = (.ok (), { d with
      sess := d.sess.commit (clampedState fmt delta d.sess.baseState)
      log := d.log ++ [.txFrame (stateFrame fmt d.sess.codeGroup
        (clampedState fmt delta d.sess.baseState))] }))

/-! ## The temperatures -/

theorem steppedTemp_toNat (delta : Int8) (base : AcState) :
    ((steppedTemp delta base).toNat : Int) = max 16 (min 31 (stepTarget delta base)) := by
  unfold steppedTemp stepTarget
  generalize (base.tempC.toNat : Int) + delta.toInt = t
  simp only [UInt8.toNat_ofNat']
  have h16 : ((16 : UInt8).toNat : Int) = 16 := rfl
  have h31 : ((31 : UInt8).toNat : Int) = 31 := rfl
  rw [h16, h31]
  split <;> split <;> omega

theorem clampedTemp_toNat (fmt : Format) (delta : Int8) (base : AcState) :
    ((clampedTemp fmt delta base).toNat : Int) =
      max ((tempRange fmt).1.toNat : Int)
        (min ((tempRange fmt).2.toNat : Int) (stepTarget delta base)) := by
  have hlo := (tempRange fmt).1.toNat_lt
  have hhi := (tempRange fmt).2.toNat_lt
  unfold clampedTemp
  simp only [UInt8.toNat_ofNat']
  omega

theorem tempRange_key7 : tempRange .key7 = (19, 30) := rfl

theorem tempRange_key11 (h : fmt.is11Key = true) : tempRange fmt = (16, 31) := if_pos h

/-! ## The step -/

/-- Only the temperature decides whether the step has a frame. -/
theorem accepted_step (hb : Accepted fmt base) (t : UInt8) :
    Accepted fmt (keyedState (stepKey delta) (some (.temp t)) base) ↔ TempOk fmt t := by
  have hv : (keyedState (stepKey delta) (some (.temp t)) base).Valid := hb.1
  have hk : KeyOk fmt (stepKey delta) := by
    unfold stepKey
    split <;> cases fmt <;> decide
  exact ⟨fun h => h.2.2, fun h => ⟨hv, hk, h⟩⟩

/-- A valid state whose temperature is out of the range. -/
theorem buildAcState_eq_temp {codeGroup : UInt16} {s : AcState} (hv : s.Valid)
    (hk : KeyOk fmt s.key) (ht : ¬TempOk fmt s.tempC) :
    buildAcState fmt codeGroup s = .error .temp := by
  unfold buildAcState
  rw [show validateState s = .ok () from hv]
  dsimp only
  rw [if_neg hk.1, if_neg hk.2, if_pos (Decidable.not_not.mp ht)]

theorem txError_of_works {f : Frame} (h : UartWorks tx d) (hl : f.length = frameMax) :
    d.txError tx f = false := by
  obtain ⟨hm, ht, hw⟩ := h
  simp [Driver.txError, hm, ht, hw, hl]

/-- The step fails if its temperature is out of the range. -/
theorem acTempStep_rejected (hb : Accepted fmt d.sess.baseState)
    (ht : ¬TempOk fmt (steppedTemp delta d.sess.baseState)) :
    acTempStep fmt tx d delta = (.error .temp, d) := by
  have hk : KeyOk fmt (stepKey delta) := by
    unfold stepKey
    split <;> cases fmt <;> decide
  have hbuild : buildAcState fmt d.sess.codeGroup (keyedState (stepKey delta)
      (some (.temp (steppedTemp delta d.sess.baseState))) d.sess.baseState) = .error .temp :=
    buildAcState_eq_temp hb.1 hk ht
  unfold acTempStep sendStateWithKey
  dsimp only
  rw [hbuild]

/-- The step sends its temperature if it is in the range. -/
theorem acTempStep_accepted (hb : Accepted fmt d.sess.baseState)
    (ht : TempOk fmt (steppedTemp delta d.sess.baseState)) :
    (acTempStep fmt tx d delta).1 ≠ .error .temp ∧
      (UartWorks tx d → acTempStep fmt tx d delta = (.ok (), { d with
        sess := d.sess.commit (keyedState (stepKey delta)
          (some (.temp (steppedTemp delta d.sess.baseState))) d.sess.baseState)
        log := d.log ++ [.txFrame (stateFrame fmt d.sess.codeGroup (keyedState (stepKey delta)
          (some (.temp (steppedTemp delta d.sess.baseState))) d.sess.baseState))] })) := by
  have hacc := (@accepted_step fmt delta _ hb _).mpr ht
  have hbuild : buildAcState fmt d.sess.codeGroup _ = .ok _ :=
    buildAcState_eq_ok.mpr ⟨hacc, rfl⟩
  unfold acTempStep sendStateWithKey
  dsimp only
  rw [hbuild]
  dsimp only
  constructor
  · rcases sendFrame_cases tx _ d with hs | hs
    · rw [hs]
      nofun
    · rw [hs]
      nofun
  · intro hworks
    rw [sendFrame_of_not_txError (txError_of_works hworks stateFrame_length)]

/-- The temperature that the code requests is in the range of the format, and is then the clamped
one. -/
theorem tempOk_stepped_iff : TempOk fmt (steppedTemp delta base) ↔
    fmt.is11Key = true ∨ (19 ≤ stepTarget delta base ∧ stepTarget delta base ≤ 30) := by
  have hstep := steppedTemp_toNat delta base
  rw [tempOk_iff]
  cases hfmt : fmt.is11Key with
  | true =>
    rw [tempRange_key11 hfmt]
    change 16 ≤ _ ∧ _ ≤ 31 ↔ _
    simp only [true_or, iff_true]
    omega
  | false =>
    obtain rfl : fmt = .key7 := by cases fmt <;> simp_all [Format.is11Key]
    rw [tempRange_key7]
    change 19 ≤ _ ∧ _ ≤ 30 ↔ _
    simp only [Bool.false_eq_true, false_or]
    omega

theorem steppedTemp_eq_clamped (h : TempOk fmt (steppedTemp delta base)) :
    steppedTemp delta base = clampedTemp fmt delta base := by
  have hstep := steppedTemp_toNat delta base
  have hclamp := clampedTemp_toNat fmt delta base
  apply UInt8.toNat_inj.mp
  rcases tempOk_stepped_iff.mp h with hfmt | hin
  · rw [tempRange_key11 hfmt] at hclamp
    exact Int.ofNat_inj.mp (hstep.trans hclamp.symm)
  · have hlo : (tempRange fmt).1.toNat ≤ 19 := by cases fmt <;> decide
    have hhi : 30 ≤ (tempRange fmt).2.toNat := by cases fmt <;> decide
    omega

/-- **When the step is clamped**, after any calls: with 11 keys always, with 7 keys exactly if it
does not leave the range of 19 to 30 degrees. -/
theorem stepClamps_iff (hr : (api fmt).Reach d) (delta : Int8) :
    StepClamps fmt d delta ↔ fmt.is11Key = true ∨
      (19 ≤ (d.sess.baseState.tempC.toNat : Int) + delta.toInt ∧
        (d.sess.baseState.tempC.toNat : Int) + delta.toInt ≤ 30) := by
  have hb := (Cached.reach hr).baseState
  have hiff : TempOk fmt (steppedTemp delta d.sess.baseState) ↔ fmt.is11Key = true ∨
      (19 ≤ stepTarget delta d.sess.baseState ∧ stepTarget delta d.sess.baseState ≤ 30) :=
    tempOk_stepped_iff
  unfold stepTarget at hiff
  rw [← hiff]
  constructor
  · intro h
    apply Decidable.byContradiction
    intro hno
    have hrej : acTempStep fmt ⟨true, 16⟩ d delta = (.error .temp, d) := acTempStep_rejected hb hno
    exact (h ⟨true, 16⟩).1 (by rw [hrej])
  · intro h tx
    have hacc := @acTempStep_accepted fmt tx d delta hb h
    rw [steppedTemp_eq_clamped h] at hacc
    exact hacc

theorem stepClamps_iff_init : StepClamps .key7 ⟨true, .init, []⟩ (-6) :=
  (stepClamps_iff (.init ⟨true, rfl⟩) (-6)).mpr (.inr (by decide))

/-- The default of 25 degrees and six more are 31 degrees, which no frame with 7 keys has. -/
theorem not_stepClamps : ¬∀ (fmt : Format) (d : Driver) (delta : Int8), (api fmt).Reach d →
    StepClamps fmt d delta := by
  intro h
  have hclamps := h .key7 ⟨true, .init, []⟩ 6 (.init ⟨true, rfl⟩) ⟨true, 16⟩
  exact hclamps.1 rfl

end BleOta.Hxd019
