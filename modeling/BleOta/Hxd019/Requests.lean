import BleOta.Hxd019.Cache

/-!
# Which requests are accepted

* `accepted_indep`: whether a request is accepted does not depend on the cached state.
* `run_rejected`, `run_key7`, `run_txError`, `run_accepted`: a call in one piece, by what happens to
  its request and its transmission.
* `Cached.baseState`: the base state of a driver is accepted.
-/

namespace BleOta.Hxd019

variable {fmt : Format} {tx : Tx} {c : Call} {d : Driver} {key : UInt8} {mutate : Option Mutate}
  {base base' st : AcState}

/-! ## Requests -/

theorem ite_error_eq_ok {p : Prop} [Decidable p] {e : Err} {x : Except Err Unit} :
    (if p then .error e else x) = .ok () ↔ ¬p ∧ x = .ok () := by
  by_cases hp : p <;> simp [hp]

theorem AcState.valid_iff {s : AcState} : s.Valid ↔
    ¬(s.fan < fanAuto ∨ fanHigh < s.fan) ∧ ¬(s.swing < swingUp ∨ swingDown < s.swing) ∧
      ¬lrswingOn < s.swingAuto ∧ ¬powerOn < s.power ∧ ¬(s.mode < modeAuto ∨ modeHeat < s.mode) ∧
      ¬(1 < s.sleep ∨ 1 < s.auxHeat ∨ 1 < s.light ∨ 1 < s.eco) := by
  unfold AcState.Valid validateState
  rw [ite_error_eq_ok, ite_error_eq_ok, ite_error_eq_ok, ite_error_eq_ok, ite_error_eq_ok,
    ite_error_eq_ok]
  simp

theorem not_outside {lo hi x : UInt8} :
    ¬(x < lo ∨ hi < x) ↔ lo.toNat ≤ x.toNat ∧ x.toNat ≤ hi.toNat := by
  rw [not_or, UInt8.not_lt, UInt8.not_lt, UInt8.le_iff_toNat_le, UInt8.le_iff_toNat_le]

theorem tempOk_iff (t : UInt8) : TempOk fmt t ↔
    (tempRange fmt).1.toNat ≤ t.toNat ∧ t.toNat ≤ (tempRange fmt).2.toNat := not_outside

/-- Whether a request is accepted does not depend on the accepted state that it starts from. -/
theorem accepted_indep (hb : Accepted fmt base) (hb' : Accepted fmt base')
    (h : Accepted fmt (keyedState key mutate base)) :
    Accepted fmt (keyedState key mutate base') := by
  unfold Accepted at *
  rw [AcState.valid_iff] at *
  cases mutate with
  | none => simp_all [keyedState]
  | some m =>
    cases m with
    | bool field on => cases field <;> simp_all [keyedState, Mutate.apply, mutBool]
    | temp | u8Mode | u8Fan | u8Swing => simp_all [keyedState, Mutate.apply]

/-! ## Calls in one piece -/

theorem txError_congr {f f' : Frame} (hl : f.length = f'.length) :
    d.txError tx f = d.txError tx f' := by
  simp [Driver.txError, hl]

theorem sendFrame_of_txError {f : Frame} (h : d.txError tx f = true) :
    sendFrame tx f d = (.error .arg, d) := if_pos h

theorem sendFrame_of_not_txError {f : Frame} (h : d.txError tx f = false) :
    sendFrame tx f d = (.ok (), { d with log := d.log ++ [.txFrame f] }) :=
  if_neg (by simp [h])

theorem buildAcState_eq_error {codeGroup : UInt16} (h : ¬Accepted fmt st) :
    ∃ e, buildAcState fmt codeGroup st = .error e := by
  cases hb : buildAcState fmt codeGroup st with
  | error e => exact ⟨e, rfl⟩
  | ok f => exact absurd (buildAcState_eq_ok.mp hb).1 h

/-- A call whose request is not accepted changes nothing. -/
theorem run_rejected (hc : c.SendsState = true)
    (hreq : c.request fmt d.sess.baseState = some (key, mutate))
    (h : ¬Accepted fmt (keyedState key mutate d.sess.baseState)) : (c.run fmt tx d).2 = d := by
  rw [Call.run_sendsState hc, hreq]
  obtain ⟨e, he⟩ : ∃ e, buildAcState fmt d.sess.codeGroup
      (keyedState key mutate d.sess.baseState) = .error e := buildAcState_eq_error h
  simp [sendStateWithKey, he]

theorem run_key7 (hc : c.SendsState = true) (hreq : c.request fmt d.sess.baseState = none) :
    (c.run fmt tx d).2 = d := by
  rw [Call.run_sendsState hc, hreq]

/-- A call whose transmission fails changes nothing. -/
theorem run_txError {f : Frame} (hc : c.SendsState = true) (hl : f.length = frameMax)
    (h : d.txError tx f = true) : (c.run fmt tx d).2 = d := by
  rw [Call.run_sendsState hc]
  cases c.request fmt d.sess.baseState with
  | none => rfl
  | some req =>
    obtain ⟨key, mutate⟩ := req
    rcases sendStateWithKey_cases fmt tx d key mutate with ⟨e, he⟩ | ⟨hacc, -⟩
    · simp [he]
    · have hb : buildAcState fmt d.sess.codeGroup (keyedState key mutate d.sess.baseState) =
          .ok _ := buildAcState_eq_ok.mpr ⟨hacc, rfl⟩
      have hl' : f.length = (stateFrame fmt d.sess.codeGroup
          (keyedState key mutate d.sess.baseState)).length := hl.trans stateFrame_length.symm
      rw [txError_congr hl'] at h
      simp [sendStateWithKey, hb, sendFrame_of_txError h]

/-- A call whose request is accepted and whose transmission succeeds. -/
theorem run_accepted (hc : c.SendsState = true)
    (hreq : c.request fmt d.sess.baseState = some (key, mutate))
    (hst : st = keyedState key mutate d.sess.baseState) (hacc : Accepted fmt st)
    (h : d.txError tx (stateFrame fmt d.sess.codeGroup st) = false) :
    c.run fmt tx d = (.ok (), { d with
      sess := d.sess.commit st
      log := d.log ++ [.txFrame (stateFrame fmt d.sess.codeGroup st)] }) := by
  subst hst
  rw [Call.run_sendsState hc, hreq]
  have hb : buildAcState fmt d.sess.codeGroup (keyedState key mutate d.sess.baseState) = .ok _ :=
    buildAcState_eq_ok.mpr ⟨hacc, rfl⟩
  simp [sendStateWithKey, hb, sendFrame_of_not_txError h]

/-! ## The base state -/

theorem Cached.baseState (h : Cached fmt d) : Accepted fmt d.sess.baseState := by
  unfold Session.baseState
  split
  next hs =>
    obtain ⟨f, hf, -⟩ := h hs
    exact (buildAcState_eq_ok.mp hf).1
  · exact acStateDefault_accepted

end BleOta.Hxd019
