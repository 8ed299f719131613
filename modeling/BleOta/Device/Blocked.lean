import BleOta.Device.Invariant
import Mathlib.Data.List.Infix

/-!
# The flag `s_open_blocked`

The Start callback clears the flag, the pump sets it after a rejected open. `Gated`: once the
callback has cleared it, the flag is set only after an open for the data of this Start was rejected;
until then the data of an armed transport passes the test of the flags.

* `gated_iff`: every state of a run is `Gated` if and only if the pump sets the flag only for an
  item of the present Start, or while the callback has not cleared it yet (`BlockCond`).
* `blocked_by_old`: a run where the open for the data of the first Start fails after the callback of
  the second has cleared the flag.
-/

namespace BleOta.Device

/-- The open for the item of the pump has been rejected (its length is 0, or
`ota_sink_session_open` has failed), and the item is of the present Start, whose callback has
ended. -/
def Rejects (d : Device) : Prop :=
  (d.pump.pc = .zeroLen ∨ d.pump.pc = .openFailed) ∧ d.clock % 2 = 0 ∧
    ∀ c ∈ d.pump.data, c.born = d.clock

/-- In the run `ls` to `d` an open for the data of the present Start was rejected. -/
def OwnRejected (B : Board) (ls : List DevLabel) (d : Device) : Prop :=
  ∃ pre dm, pre <+: ls ∧ (system B).exec pre .init = some dm ∧ dm.clock = d.clock ∧ dm.Rejects

/-- What the flag says after the run `ls` to `d`, once the callback has cleared it. -/
structure Gated (B : Board) (ls : List DevLabel) (d : Device) : Prop where
  blocked : d.nimble ≠ .startUnblock → d.openBlocked = true → OwnRejected B ls d
  passes : ∀ n sector delivered frame, d.nimble = .recvCheck sector delivered frame →
    d.armed = true → ¬OwnRejected B ls d →
    (system B).step (.nimble n) d = some { d with nimble := .recvSend sector delivered frame }

/-- Where the pump sets the flag, it is set already, or the Start callback clears it later, or the
item is of the present Start. -/
def BlockCond (d : Device) : DevLabel → Prop
  | .pump _ _ => d.pump.pc = .zeroLen ∨ d.pump.pc = .openFailed →
      d.openBlocked = true ∨ d.nimble = .startUnblock ∨
        (d.clock % 2 = 0 ∧ ∀ c ∈ d.pump.data, c.born = d.clock)
  | _ => True

variable {B : Board} {d d' dm : Device} {l : DevLabel} {ls pre : List DevLabel}

theorem Gated.of_blocked
    (h : d.nimble ≠ .startUnblock → d.openBlocked = true → OwnRejected B ls d) : Gated B ls d := by
  refine ⟨h, fun n sector delivered frame hn ha ho => ?_⟩
  have hb : d.openBlocked = false := by
    by_contra hb
    exact ho (h (by simp [hn]) (by simpa using hb))
  show nimbleStep n d = _
  simp [nimbleStep, hn, ha, hb]

/-! ## A step -/

/-- What a step does to the flag: the Start callback clears it, the pump sets it at its two places,
else it stays. -/
theorem step_flag (hst : (system B).step l d = some d') :
    (d.nimble = .startUnblock ∧ d'.openBlocked = false ∧ d'.clock = d.clock) ∨
    ((d.pump.pc = .zeroLen ∨ d.pump.pc = .openFailed) ∧ d'.openBlocked = true ∧
      d'.clock = d.clock ∧ d'.nimble = d.nimble ∧ d'.pump.pc = .giveBack ∧
      ∃ n idf, l = .pump n idf) ∨
    (d'.openBlocked = d.openBlocked ∧
      ((d.pump.pc = .zeroLen ∨ d.pump.pc = .openFailed) →
        d'.pump = d.pump ∧ ∀ n idf, l ≠ .pump n idf) ∧
      ((d'.clock = d.clock ∧ (d.nimble = .startUnblock → d'.nimble = .startUnblock)) ∨
        (d.clock < d'.clock ∧ (d'.nimble = .startUnblock ∨ d.nimble = .startInvalidate)))) := by
  have hz : ∀ {P : Prop} {pc : PumpPc}, d.pump.pc = pc → pc ≠ .zeroLen → pc ≠ .openFailed →
      (d.pump.pc = .zeroLen ∨ d.pump.pc = .openFailed) → P := by
    rintro P pc rfl h1 h2 (hx | hx)
    · exact absurd hx h1
    · exact absurd hx h2
  have hn : ∀ {P : Prop} {n : NimblePc}, d.nimble = n → n ≠ .startUnblock →
      d.nimble = .startUnblock → P := by
    rintro P n rfl h1 hx
    exact absurd hx h1
  cases step_act hst with
  | startUnblock hu => exact .inl ⟨hu, rfl, rfl⟩
  | zeroBlock hpc => exact .inr (.inl ⟨.inl hpc, rfl, rfl, rfl, rfl, _, _, rfl⟩)
  | failBlock hpc => exact .inr (.inl ⟨.inr hpc, rfl, rfl, rfl, rfl, _, _, rfl⟩)
  | startArm =>
    exact .inr (.inr ⟨rfl, fun _ => ⟨rfl, by simp⟩, .inr ⟨Nat.lt_succ_self _, .inl rfl⟩⟩)
  | startInvalidate hi =>
    exact .inr (.inr ⟨rfl, fun _ => ⟨rfl, by simp⟩, .inr ⟨Nat.lt_succ_self _, .inr hi⟩⟩)
  | reply hi | otherCommand hi | subscribe hi | disconnect hi | sectorEnd hi | start hi | stop hi
    | recvPass hi | recvRefuse hi | sendOk hi | sendFull hi | flushTake hi | flushDone hi
    | flushReturn hi | stopDisarm hi =>
    exact .inr (.inr ⟨rfl, fun _ => ⟨rfl, by simp⟩, .inl ⟨rfl, hn hi (by simp)⟩⟩)
  | take hpc | timesOut hpc | timeoutAbort hpc | timeoutBack hpc | emptyItem hpc | lazyOpen hpc
    | toWrite hpc | unarmed hpc | zero hpc | length hpc | giveBack hpc | wroteOk hpc
    | wroteFail hpc | sections hpc =>
    exact .inr (.inr ⟨rfl, hz hpc (by simp) (by simp), .inl ⟨rfl, id⟩⟩)
  | calls hc =>
    refine .inr (.inr ⟨rfl, fun hx => ?_, .inl ⟨rfl, id⟩⟩)
    rcases hx with hx | hx <;> rw [hx] at hc <;> cases hc

theorem clock_le (hst : (system B).step l d = some d') : d.clock ≤ d'.clock := by
  rcases step_flag hst with ⟨-, -, h⟩ | ⟨-, -, h, -⟩ | ⟨-, -, ⟨h, -⟩ | ⟨h, -⟩⟩ <;> omega

/-! ## A run -/

theorem prefix_clock_le (h : (system B).exec ls .init = some d) (hp : pre <+: ls)
    (hm : (system B).exec pre .init = some dm) : dm.clock ≤ d.clock := by
  induction ls using List.reverseRecOn generalizing d with
  | nil =>
    rw [List.prefix_nil.mp hp] at hm
    cases h
    cases hm
    exact Nat.le_refl _
  | append_singleton ls l ih =>
    obtain ⟨d₀, h0, hst⟩ := Lib.Lts.exec_snoc.mp h
    rcases List.prefix_concat_iff.mp hp with rfl | hp
    · rw [h] at hm
      cases hm
      exact Nat.le_refl _
    · exact Nat.le_trans (ih h0 hp) (clock_le hst)

theorem OwnRejected.extend (h : OwnRejected B ls d) (hc : d'.clock = d.clock) :
    OwnRejected B (ls ++ [l]) d' := by
  obtain ⟨pre, dm, hp, hm, hk, hr⟩ := h
  exact ⟨pre, dm, hp.trans (List.prefix_append _ _), hm, by rw [hk, hc], hr⟩

/-- The rejection is in the run before the last step, or it is its last state. -/
theorem OwnRejected.snoc {d₀ : Device} (h : OwnRejected B (ls ++ [l]) d)
    (h0 : (system B).exec ls .init = some d₀) (hst : (system B).step l d₀ = some d) :
    d.Rejects ∨ (d.clock = d₀.clock ∧ OwnRejected B ls d₀) := by
  obtain ⟨pre, dm, hp, hm, hk, hr⟩ := h
  rcases List.prefix_concat_iff.mp hp with rfl | hp
  · rw [Lib.Lts.exec_snoc.mpr ⟨d₀, h0, hst⟩] at hm
    cases hm
    exact .inl hr
  · have h1 := prefix_clock_le h0 hp hm
    have h2 := clock_le hst
    exact .inr ⟨by omega, pre, dm, hp, hm, by omega, hr⟩

theorem OwnRejected.even (h : OwnRejected B ls d) : d.clock % 2 = 0 := by
  obtain ⟨pre, dm, -, -, hk, -, he, -⟩ := h
  rw [← hk]
  exact he

/-- After the rejection the flag is set, or the pump is about to set it. -/
theorem OwnRejected.set (h : OwnRejected B ls d) (he : (system B).exec ls .init = some d) :
    d.openBlocked = true ∨ d.Rejects := by
  induction ls using List.reverseRecOn generalizing d with
  | nil =>
    obtain ⟨pre, dm, hp, hm, -, hr⟩ := h
    rw [List.prefix_nil.mp hp] at hm
    cases hm
    cases he
    exact .inr hr
  | append_singleton ls l ih =>
    obtain ⟨d₀, h0, hst⟩ := Lib.Lts.exec_snoc.mp he
    rcases h.snoc h0 hst with hr | ⟨hk, ho⟩
    · exact .inr hr
    have heven := ho.even
    rcases step_flag hst with ⟨hn, -⟩ | ⟨-, hb, -⟩ | ⟨hb, hp, -⟩
    · have hodd := (HistoryOk.reach (Lib.Lts.exec_reach (.init rfl) h0)).odd.mpr
        (by rw [hn]; trivial)
      omega
    · exact .inl hb
    · rcases ih ho h0 with hx | hx
      · exact .inl (hb.trans hx)
      · refine .inr ?_
        obtain ⟨h1, h2, h3⟩ := hx
        rw [Rejects, (hp h1).1, hk]
        exact ⟨h1, h2, h3⟩

/-- **If the pump sets the flag for its own Start only**, the flag says what it should. -/
theorem blocked_of_meets (he : (system B).exec ls .init = some d)
    (hm : (system B).Meets BlockCond ls .init) :
    d.nimble ≠ .startUnblock → d.openBlocked = true → OwnRejected B ls d := by
  induction ls using List.reverseRecOn generalizing d with
  | nil =>
    cases he
    intro _ hb
    cases hb
  | append_singleton ls l ih =>
    obtain ⟨d₀, h0, hst⟩ := Lib.Lts.exec_snoc.mp he
    obtain ⟨hm0, hc⟩ := (Lib.Lts.meets_snoc h0 hst).mp hm
    intro hn hb
    have hr0 : (system B).Reach d₀ := Lib.Lts.exec_reach (.init rfl) h0
    rcases step_flag hst with ⟨-, hx, -⟩ | ⟨hpc, -, hk, hnn, -, n, idf, rfl⟩ | ⟨hx, -, hk⟩
    · rw [hx] at hb
      cases hb
    · rcases hc hpc with h1 | h1 | h1
      · exact (ih h0 hm0 (hnn ▸ hn) h1).extend hk
      · exact absurd (hnn.trans h1) hn
      · exact OwnRejected.extend ⟨ls, d₀, List.prefix_refl _, h0, rfl, hpc, h1⟩ hk
    · have hb0 : d₀.openBlocked = true := hx ▸ hb
      rcases hk with ⟨hk, hnn⟩ | ⟨-, hnn | hnn⟩
      · exact (ih h0 hm0 (fun hx => hn (hnn hx)) hb0).extend hk
      · exact absurd hnn hn
      · -- The end of the callback: no flag that was set before the Start is left.
        have heven := (ih h0 hm0 (by simp [hnn]) hb0).even
        have hodd := (HistoryOk.reach hr0).odd.mpr (by rw [hnn]; trivial)
        omega

/-- **If the flag says what it should in every state**, the pump has set it for its own Start
only. -/
theorem meets_of_blocked (he : (system B).exec ls .init = some d)
    (hg : ∀ pre dm, pre <+: ls → (system B).exec pre .init = some dm → dm.nimble ≠ .startUnblock →
      dm.openBlocked = true → OwnRejected B pre dm) :
    (system B).Meets BlockCond ls .init := by
  induction ls using List.reverseRecOn generalizing d with
  | nil => trivial
  | append_singleton ls l ih =>
    obtain ⟨d₀, h0, hst⟩ := Lib.Lts.exec_snoc.mp he
    refine (Lib.Lts.meets_snoc h0 hst).mpr
      ⟨ih h0 fun pre dm hp => hg pre dm (hp.trans (List.prefix_append _ _)), ?_⟩
    cases l with
    | ble e | nimble n => trivial
    | pump n idf =>
      intro hpc
      by_contra hno
      have hb0 : ¬d₀.openBlocked = true := fun hx => hno (.inl hx)
      have hn0 : d₀.nimble ≠ .startUnblock := fun hx => hno (.inr (.inl hx))
      have hr0 : ¬d₀.Rejects := fun hx => hno (.inr (.inr hx.2))
      rcases step_flag hst with ⟨hn, -⟩ | ⟨-, hb, -, hnn, hgive, -⟩ | ⟨-, hp, -⟩
      · exact hn0 hn
      · have ho := hg _ d (List.prefix_refl _) he (hnn ▸ hn0) hb
        rcases ho.snoc h0 hst with hr | ⟨-, ho⟩
        · rcases hr.1 with hx | hx <;> rw [hgive] at hx <;> cases hx
        · exact (ho.set h0).elim hb0 hr0
      · exact (hp hpc).2 n idf rfl

/-- **A rejected open never blocks a later Start** in a run, in each of its states, if and only if
each step of the run meets `BlockCond`. -/
theorem gated_iff (he : (system B).exec ls .init = some d) :
    (∀ pre dm, pre <+: ls → (system B).exec pre .init = some dm → Gated B pre dm) ↔
      (system B).Meets BlockCond ls .init := by
  constructor
  · exact fun hg => meets_of_blocked he fun pre dm hp hm => (hg pre dm hp hm).blocked
  · rintro hm pre dm ⟨post, rfl⟩ hd
    exact .of_blocked (blocked_of_meets hd (Lib.Lts.meets_append_left hm))

theorem gated_writtenSector : ∃ d, (system .otaSlots).exec writtenSector .init = some d ∧
    Gated .otaSlots writtenSector d := by
  have hno : ∀ {d : Device} {n : Nat} {idf : Idf}, d.pump.pc ≠ .zeroLen →
      d.pump.pc ≠ .openFailed → BlockCond d (.pump n idf) :=
    fun h1 h2 hx => (hx.elim h1 h2).elim
  have hm : (system .otaSlots).Meets BlockCond writtenSector .init :=
    ⟨trivial, _, rfl, trivial, _, rfl, trivial, _, rfl, trivial, _, rfl, trivial, _, rfl, trivial,
      _,
      rfl, trivial, _, rfl, trivial, _, rfl, hno (by rintro ⟨⟩) (by rintro ⟨⟩), _, rfl,
      hno (by rintro ⟨⟩) (by rintro ⟨⟩), _, rfl, hno (by rintro ⟨⟩) (by rintro ⟨⟩), _, rfl,
      hno (by rintro ⟨⟩) (by rintro ⟨⟩), _, rfl, hno (by rintro ⟨⟩) (by rintro ⟨⟩), _, rfl,
      hno (by rintro ⟨⟩) (by rintro ⟨⟩), _, rfl, trivial⟩
  have he : (system .otaSlots).exec writtenSector .init =
      some ((system .otaSlots).run writtenSector .init) := rfl
  exact ⟨_, he, (gated_iff he).mpr hm _ _ (List.prefix_refl _) he⟩

/-- The pump is before its open for the first Start when the callback of the second one clears the
flag and comes to `ota_sink_epoch_invalidate`. -/
def duringOpen : List DevLabel :=
  startCommand 8 :: startCallback ++ wholePacket 0 [1, 2] :: recvCallback ++ pumpSteps 3 ++
    startCommand 8 :: List.replicate 3 (.nimble 0)

/-- `esp_ota_begin` fails. -/
def failedOpen : List DevLabel := duringOpen ++ [.pump 0 { Idf.allOk with begin := -1 }]

/-- The pump sets the flag for the item of the first Start, and the callback ends. -/
def lateSet : List DevLabel := failedOpen ++ [.pump 0 .allOk] ++ [.nimble 0]

/-- The flag is set for the second Start, for which no open was tried. -/
theorem blocked_by_old : ¬∀ ls d, (system .otaSlots).exec ls .init = some d →
    Gated .otaSlots ls d := by
  intro h
  have he : (system .otaSlots).exec lateSet .init =
      some ((system .otaSlots).run lateSet .init) := rfl
  have hm := meets_of_blocked he fun pre dm _ hd => (h pre dm hd).blocked
  have h0 : (system .otaSlots).exec failedOpen .init =
      some ((system .otaSlots).run failedOpen .init) := rfl
  have hst : (system .otaSlots).step (.pump 0 .allOk) ((system .otaSlots).run failedOpen .init) =
      some ((system .otaSlots).run (failedOpen ++ [.pump 0 .allOk]) .init) := rfl
  obtain ⟨-, hc⟩ := (Lib.Lts.meets_snoc h0 hst).mp (Lib.Lts.meets_append_left hm)
  rcases hc (.inr rfl) with hx | hx | ⟨hx, -⟩
  · cases hx
  · cases hx
  · exact absurd hx (by decide)

end BleOta.Device
