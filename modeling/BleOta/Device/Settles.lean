import BleOta.Device.Drains

/-!
# The pump lets go of a session that was left

`drains` ends where the pump waits, maybe with a session whose data comes no more. After a Stop or
the end of a connection (`armed = false`) it does not stay there: it aborts the session at the next
timeout.

* `Pump.Ending`: the places from which the pump goes back to wait without a session. An unarmed
  pump never leaves them.
* `settles`: from every reachable state that is not armed, while nothing comes from the BLE side,
  all steps of the pump lead to a state where it waits with an empty ring and without a session,
  or to the restart.
-/

namespace BleOta

open Lib (Ring)

/-- The pump has no session, or is about to abort it. -/
def Pump.Ending (p : Pump) : Prop :=
  match p.pc with
  | .timeout | .aborting | .halted => True
  | .receive | .arrived | .giveBack => p.epoch = 0
  | _ => False

instance (p : Pump) : Decidable p.Ending := by
  unfold Pump.Ending
  split <;> infer_instance

namespace Device

variable {B : Board} {d d' : Device} {n : Nat} {idf : Idf}

/-- The pump waits without a session and the ring is empty, or the device restarts. -/
def Settled (d : Device) : Prop :=
  d.pump.pc = .halted ∨ (d.pump.pc = .receive ∧ d.pump.epoch = 0 ∧ d.ring.queue = [])

/-- A step of the pump: nothing comes from the BLE side. -/
def Alone (_ : Device) : DevLabel → Prop
  | .pump .. => True
  | _ => False

/-- A bound of the steps until the pump settles. -/
def unsettled (d : Device) : Nat := d.work + if d.pump.Ending then 0 else 10

theorem pump_keeps (hst : (system B).step (.pump n idf) d = some d') :
    d'.armed = d.armed ∧ d'.nimble = d.nimble := by
  cases step_act hst <;> exact ⟨rfl, rfl⟩

/-- An abort returns at once. -/
theorem Sect.abort_returns {α : Type} {o : SinkCall α} {s : SinkSt} {out : Out α} {e : Nat}
    (ho : o.1 = .sessionAbort e) (hs : Sect B o none s out) :
    ∃ err e, out.2.2 = .inr (.ret err e) := by
  cases hs with
  | refused | notOpened | beginFails | begins | aborts | drops => exact ⟨_, _, rfl⟩
  | writes ho' | finishes ho' | activates ho' =>
    rw [ho] at ho'
    cases ho'

/-- An unarmed pump that has no session gets none. -/
theorem Ending.step (he : d.pump.Ending) (hoff : d.armed = false)
    (hst : (system B).step (.pump n idf) d = some d') : d'.pump.Ending := by
  cases step_act hst with
  | take hpc | emptyItem hpc | unarmed hpc | giveBack hpc =>
    simpa only [Pump.Ending, hpc] using he
  | timesOut | timeoutAbort => trivial
  | timeoutBack hpc hback =>
    rcases hback with hz | harm
    · exact hz
    · rw [hoff] at harm
      cases harm
  | lazyOpen _ _ _ harm =>
    rw [hoff] at harm
    cases harm
  | toWrite hpc _ hne =>
    simp only [Pump.Ending, hpc] at he
    exact absurd he hne
  | zero hpc | length hpc | zeroBlock hpc | failBlock hpc | wroteOk hpc | wroteFail hpc
    | sections hpc => simp only [Pump.Ending, hpc] at he
  | @calls n idf op out hc _ hs =>
    rcases d.pump.callOf_cases hc with ⟨_, hpc, rfl⟩ | ⟨hpc, rfl⟩ | ⟨hpc, rfl⟩ | ⟨hpc, rfl⟩ |
      ⟨hpc, rfl⟩
    · simp only [Pump.Ending, hpc] at he
    · simp only [Pump.Ending, hpc] at he
    · simp only [Pump.Ending, hpc] at he
    · simp only [Pump.Ending, hpc] at he
    · obtain ⟨err, e, hout⟩ := Sect.abort_returns rfl hs
      show (d.pump.after _ out.2.2).Ending
      rw [hout]
      rfl

/-- **A step of the pump** on the way leaves less to do. -/
theorem pump_unsettled (hr : (system B).Reach d) (hoff : d.armed = false)
    (hidle : d.nimble = .idle) (hsettled : ¬d.Settled)
    (hst : (system B).step (.pump n idf) d = some d') : d'.unsettled < d.unsettled := by
  have hn : ∀ item, d.nimble ≠ .startReturn item := by
    intro item h
    rw [hidle] at h
    cases h
  by_cases hrest : d.AtRest
  · rcases hrest with ⟨hpc, hq⟩ | hpc
    · -- it waits with a session: the timeout comes, and ends it
      have hne : d.pump.epoch ≠ 0 := fun hz => hsettled (.inr ⟨hpc, hz, hq⟩)
      have hnot : ¬d.pump.Ending := by simpa only [Pump.Ending, hpc] using hne
      have hrc : d.ring.receive n = none := by
        cases hrc : d.ring.receive n with
        | none => rfl
        | some r =>
          obtain ⟨-, hq', hne', -⟩ := Ring.receive_eq_some hrc
          rw [hq] at hq'
          simp [hne'] at hq'
      have hpump : d.pumpStep B n idf = some d' := hst
      simp only [pumpStep, hpc, hrc, Option.some.injEq] at hpump
      subst hpump
      show 20 * d.ring.queue.length + 7 + (if True then 0 else 10) < d.unsettled
      rw [unsettled, work, if_neg hnot, hpc, hq]
      decide
    · exact absurd (.inl hpc) hsettled
  · obtain ⟨hlt, -⟩ := pump_work hr hn hrest hst
    have hle : (if d'.pump.Ending then 0 else 10) ≤ if d.pump.Ending then 0 else 10 := by
      by_cases he : d.pump.Ending
      · simp only [if_pos he, if_pos (Ending.step he hoff hst), Nat.le_refl]
      · rw [if_neg he]
        split <;> omega
    rw [unsettled, unsettled]
    omega

/-- **An unarmed pump settles.** -/
theorem settles (hr : (system B).Reach d) (hoff : d.armed = false) (hidle : d.nimble = .idle) :
    (system B).Leads Alone Settled d := by
  refine .of_measure (I := fun d => (system B).Reach d ∧ d.armed = false ∧ d.nimble = .idle)
    unsettled ?_ ?_ ⟨hr, hoff, hidle⟩
  · rintro l s s' ⟨hr, hoff, hidle⟩ hsettled hc hst
    cases l with
    | ble | nimble => exact hc.elim
    | pump n idf =>
      obtain ⟨harm, hn⟩ := pump_keeps hst
      exact ⟨⟨.step _ hr hst, harm.trans hoff, hn.trans hidle⟩,
        pump_unsettled hr hoff hidle hsettled hst⟩
  · rintro s ⟨-, -, -⟩ hsettled
    obtain ⟨s', hst⟩ := pumpStep_isSome B 0 .allOk fun h => hsettled (.inl h)
    exact ⟨.pump 0 .allOk, s', trivial, hst⟩

end Device

end BleOta
