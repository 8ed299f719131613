import BleOta.Hxd019.Commands

/-!
# No code group, no frame

A code group of 0 means that none is bound. `hxd019_ac_simple` refuses to send then; the functions
that send the full state do not look at the group.

* `sender`: the driver under all the functions that send, after `hxd019_init`.
* `BoundOnly`: a call hands no frame for an air conditioner to the UART but one with the group of
  the latest bind, which is not 0; and without a group it returns `HXD019_ERR_NOENT`.
* `meets_boundOnly_iff`: it is so in a run exactly if no full state is asked for without a group.
-/

namespace BleOta.Hxd019

variable {fmt : Format} {tx : Tx} {d : Driver} {c : Call}

/-- A frame of rule one, two or three. -/
def IsAcFrame (f : Frame) : Bool := f.take 2 == [0x30, 0x06] || IsStateFrame f

/-- The code group in the frame. -/
def CarriesGroup (codeGroup : UInt16) (f : Frame) : Prop :=
  (f.drop 2).take 2 = codeGroupToBe codeGroup

/-- The argument of the latest bind of the log. -/
def latestBind (log : List LogLine) : Option UInt16 :=
  log.foldl (fun last line => match line with
    | .bindGroup codeGroup => some codeGroup
    | .txFrame _ => last) none

/-- The driver under all the functions that send, after `hxd019_init`. -/
def sender (fmt : Format) : Lib.Lts Driver (SendCall × Tx) :=
  ⟨(· = .start), fun c d => some (c.1.run fmt c.2 d).2⟩

/-- The functions for air conditioners other than the bind. -/
def SendCall.IsAc : SendCall → Bool
  | .ac (.bindGroup _) => false
  | .ac _ => true
  | _ => false

/-- What a call may hand to the UART, and what it returns without a group (module doc). -/
def BoundOnly (fmt : Format) (d : Driver) (c : SendCall × Tx) : Prop :=
  (∀ f, c.1.handed fmt c.2 d = some f → IsAcFrame f = true →
    ∃ codeGroup, latestBind d.log = some codeGroup ∧ codeGroup ≠ 0 ∧ CarriesGroup codeGroup f) ∧
  (c.1.IsAc = true → d.sess.codeGroup = 0 →
    c.1.run fmt c.2 d = (.error .noent, d) ∧ c.1.handed fmt c.2 d = none)

/-- A function that sends the full state is called with a group. -/
def AsksBound (d : Driver) (c : SendCall × Tx) : Prop :=
  ∀ k, c.1 = .ac k → k.SendsState = true → d.sess.codeGroup ≠ 0

/-! ## The bound group -/

theorem latestBind_snoc {log : List LogLine} {line : LogLine} :
    latestBind (log ++ [line]) = match line with
      | .bindGroup codeGroup => some codeGroup
      | .txFrame _ => latestBind log := by
  unfold latestBind
  rw [List.foldl_append]
  rfl

/-- The bound group is the argument of the latest bind. -/
def GroupBound (d : Driver) : Prop := d.sess.codeGroup = (latestBind d.log).getD 0

theorem GroupBound.send {f : Frame} (h : GroupBound d) : GroupBound (sendFrame tx f d).2 := by
  rcases sendFrame_cases tx f d with hs | hs
  · rw [hs]
    exact h
  · rw [hs]
    unfold GroupBound
    rw [latestBind_snoc]
    exact h

/-- Every call keeps it. -/
theorem GroupBound.run (h : GroupBound d) (c : SendCall) : GroupBound (c.run fmt tx d).2 := by
  cases c with
  | ac c =>
    unfold SendCall.run
    dsimp only
    rcases Call.run_cases fmt tx d c with ⟨e, hrun⟩ | ⟨codeGroup, -, hrun⟩ |
      ⟨funcCode, -, hrun⟩ | ⟨-, key, mutate, -, -, hrun⟩
    · rw [hrun]
      exact h
    · rw [hrun]
      unfold GroupBound
      rw [latestBind_snoc]
      rfl
    · rw [hrun]
      unfold GroupBound
      rw [latestBind_snoc]
      exact h
    · rw [hrun]
      unfold GroupBound
      rw [latestBind_snoc]
      exact h
  | sendAvKey fmtIndex keyCode comCode =>
    unfold SendCall.run Hxd019.sendAvKey
    dsimp only
    split
    · exact h
    · exact h.send
  | startLearn => exact h.send
  | «match» => exact h.send

theorem GroupBound.reach (hr : (sender fmt).Reach d) : GroupBound d := by
  refine hr.invariant ?_ fun c s s' _ hs hst => ?_
  · rintro _ rfl
    rfl
  · cases hst
    exact hs.run c.1

theorem GroupBound.latest (h : GroupBound d) (hne : d.sess.codeGroup ≠ 0) :
    latestBind d.log = some d.sess.codeGroup := by
  unfold GroupBound at h
  cases hl : latestBind d.log with
  | none =>
    rw [hl] at h
    exact absurd h hne
  | some codeGroup =>
    rw [hl] at h
    exact congrArg some h.symm

/-! ## The calls -/

theorem validateState_ne_noent (s : AcState) : validateState s ≠ .error .noent := by
  unfold validateState
  repeat' split
  all_goals nofun

theorem buildAcState_ne_noent (codeGroup : UInt16) (s : AcState) :
    buildAcState fmt codeGroup s ≠ .error .noent := by
  have hv := validateState_ne_noent s
  unfold buildAcState
  split
  next e he =>
    rintro ⟨⟩
    exact hv he
  · repeat' split
    all_goals nofun

/-- A function that sends the full state never returns `HXD019_ERR_NOENT`. -/
theorem run_ne_noent (hc : c.SendsState = true) : (c.run fmt tx d).1 ≠ .error .noent := by
  rw [Call.run_sendsState hc]
  cases c.request fmt d.sess.baseState with
  | none => nofun
  | some req =>
    obtain ⟨key, mutate⟩ := req
    have hb := @buildAcState_ne_noent fmt d.sess.codeGroup
      (keyedState key mutate d.sess.baseState)
    unfold sendStateWithKey
    dsimp only
    split
    next e he =>
      rintro ⟨⟩
      exact hb he
    next f _ =>
      rcases sendFrame_cases tx f d with hs | hs
      · rw [hs]
        nofun
      · rw [hs]
        nofun

theorem stateFrame_carries (fmt : Format) (codeGroup : UInt16) (s : AcState) :
    CarriesGroup codeGroup (stateFrame fmt codeGroup s) := by
  cases fmt <;> rfl

/-- A frame for an air conditioner carries the bound group; without a group it is one with the full
state. -/
theorem frame_carries {c : SendCall} {f : Frame} (h : c.frame fmt d = some f)
    (hf : IsAcFrame f = true) : CarriesGroup d.sess.codeGroup f ∧
      (d.sess.codeGroup = 0 → ∃ k, c = .ac k ∧ k.SendsState = true) := by
  cases c with
  | ac c =>
    cases c using Call.casesSends with
    | bindGroup codeGroup => cases h
    | acSimple funcCode =>
      simp only [SendCall.frame, Call.frame] at h
      split at h
      · cases h
      next hne =>
        cases h
        exact ⟨rfl, fun h0 => absurd h0 hne⟩
    | sendsState c hc =>
      refine ⟨?_, fun _ => ⟨c, rfl, hc⟩⟩
      simp only [SendCall.frame, Call.frame_sendsState hc, Option.bind_eq_some_iff] at h
      obtain ⟨⟨key, mutate⟩, -, hb⟩ := h
      dsimp only at hb
      cases hbuild : buildAcState fmt d.sess.codeGroup
          (keyedState key mutate d.sess.baseState) with
      | error e =>
        rw [hbuild] at hb
        cases hb
      | ok f' =>
        rw [hbuild] at hb
        cases hb
        obtain ⟨-, rfl⟩ := buildAcState_eq_ok.mp hbuild
        exact stateFrame_carries ..
  | sendAvKey fmtIndex keyCode comCode =>
    simp only [SendCall.frame, buildAv] at h
    split at h
    · cases h
      cases hf
    · cases h
  | startLearn =>
    cases h
    cases hf
  | «match» =>
    cases h
    cases hf

/-- **A call hands over bound frames only** exactly if it asks for no full state without a group. -/
theorem boundOnly_iff (h : GroupBound d) (c : SendCall × Tx) :
    BoundOnly fmt d c ↔ AsksBound d c := by
  obtain ⟨c, tx⟩ := c
  constructor
  · rintro ⟨-, hno⟩ k rfl hk h0
    have hac : SendCall.IsAc (.ac k) = true := by cases k <;> first | rfl | cases hk
    have hrun := (hno hac h0).1
    exact run_ne_noent hk (congrArg Prod.fst hrun)
  · intro hask
    refine ⟨fun f hf hac => ?_, fun hac h0 => ?_⟩
    · obtain ⟨hframe, -⟩ := Option.filter_eq_some_iff.mp hf
      obtain ⟨hcarries, hstate⟩ := frame_carries hframe hac
      have hne : d.sess.codeGroup ≠ 0 := by
        intro h0
        obtain ⟨k, hk, hs⟩ := hstate h0
        exact hask k hk hs h0
      exact ⟨d.sess.codeGroup, h.latest hne, hne, hcarries⟩
    · obtain ⟨k, rfl⟩ : ∃ k, c = .ac k := by
        cases c with
        | ac k => exact ⟨k, rfl⟩
        | sendAvKey | startLearn | «match» => cases hac
      cases k using Call.casesSends with
      | bindGroup codeGroup => cases hac
      | acSimple funcCode =>
        simp [SendCall.run, SendCall.handed, SendCall.frame, Call.frame, Call.run,
          Hxd019.acSimple, h0]
      | sendsState k hk => exact absurd h0 (hask k rfl hk)

/-- **When no frame leaves without a group**: for every list of calls after `hxd019_init`, every
call is `BoundOnly` exactly if every call `AsksBound`. -/
theorem meets_boundOnly_iff (fmt : Format) (calls : List (SendCall × Tx)) :
    (sender fmt).Meets (BoundOnly fmt) calls .start ↔
      (sender fmt).Meets AsksBound calls .start :=
  Lib.Lts.meets_congr (fun _ c hr => boundOnly_iff (GroupBound.reach hr) c) (.init rfl)

/-- The first call after `hxd019_init` turns the air conditioner on. -/
theorem not_meets_boundOnly : ¬∀ (fmt : Format) (calls : List (SendCall × Tx)),
    (sender fmt).Meets (BoundOnly fmt) calls .start := by
  intro h
  obtain ⟨⟨-, hno⟩, -⟩ := h .key7 [(.ac (.acPower true), ⟨true, 16⟩)]
  have hhanded := (hno rfl rfl).2
  revert hhanded
  decide

end BleOta.Hxd019
