import BleOta.Hxd019.Uart

/-!
# The cached state is the one that was sent

* `Call.run_cases`: all that a call does: it fails and changes nothing, it binds, or it sends.
* `Cached`: the cached state has a frame, and it is the last one that was sent since the last bind.
* `cache_sound`: `Cached` in every reachable state, and what a call changes.
-/

namespace BleOta.Hxd019

variable {fmt : Format} {tx : Tx} {d : Driver} {c : Call}

/-! ## The convenience functions -/

/-- The functions that send the full state. -/
def Call.SendsState : Call → Bool
  | .bindGroup _ | .acSimple _ => false
  | _ => true

/-- The key and the field change of a convenience function; `none` is `HXD019_ERR_KEY7`. -/
def Call.request (fmt : Format) (base : AcState) : Call → Option (UInt8 × Option Mutate)
  | .bindGroup _ | .acSimple _ => none
  | .acPower on => some (keyPower, some (.bool .power on))
  | .acTemp tempC => some (tempKey tempC base, some (.temp tempC))
  | .acTempStep delta => some (stepKey delta, some (.temp (steppedTemp delta base)))
  | .acMode mode => some (keyMode, some (.u8Mode mode))
  | .acFan fan => some (keyFan, some (.u8Fan fan))
  | .acSwing swing => some (keySwing, some (.u8Swing swing))
  | .acLrswing on => some (keyLrswing, some (.bool .lrswing on))
  | .acSleep on => if fmt.is11Key then some (keySleep, some (.bool .sleep on)) else none
  | .acAuxHeat on => if fmt.is11Key then some (keyHeat, some (.bool .auxHeat on)) else none
  | .acLight on => if fmt.is11Key then some (keyLight, some (.bool .light on)) else none
  | .acEco on => if fmt.is11Key then some (keyEco, some (.bool .eco on)) else none
  | .acSendKey key => some (key, none)

/-- A call by what it does: a bind, a simple frame, or a convenience function. -/
@[elab_as_elim]
theorem Call.casesSends {motive : Call → Prop} (c : Call)
    (bindGroup : ∀ codeGroup, motive (.bindGroup codeGroup))
    (acSimple : ∀ funcCode, motive (.acSimple funcCode))
    (sendsState : ∀ c, c.SendsState = true → motive c) : motive c := by
  cases c with
  | bindGroup codeGroup => exact bindGroup codeGroup
  | acSimple funcCode => exact acSimple funcCode
  | _ => exact sendsState _ rfl

/-- A convenience function is `sendStateWithKey` for its request. -/
theorem Call.run_sendsState (hc : c.SendsState = true) : c.run fmt tx d =
    match c.request fmt d.sess.baseState with
    | some (key, mutate) => sendStateWithKey fmt tx d key mutate
    | none => (.error .key7, d) := by
  cases c with
  | bindGroup | acSimple => cases hc
  | acSleep | acAuxHeat | acLight | acEco =>
    cases h : fmt.is11Key <;>
      simp [Call.run, Call.request, Hxd019.acSleep, Hxd019.acAuxHeat, Hxd019.acLight,
        Hxd019.acEco, sendKey11, h]
  | _ => rfl

/-- A transmission fails and changes nothing, or it is logged. -/
theorem sendFrame_cases (tx : Tx) (f : Frame) (d : Driver) :
    sendFrame tx f d = (.error .arg, d) ∨
      sendFrame tx f d = (.ok (), { d with log := d.log ++ [.txFrame f] }) := by
  unfold sendFrame
  split
  · exact .inl rfl
  · exact .inr rfl

/-- The path of the convenience functions fails and changes nothing, or it sends the frame of an
accepted state and caches this state. -/
theorem sendStateWithKey_cases (fmt : Format) (tx : Tx) (d : Driver) (key : UInt8)
    (mutate : Option Mutate) :
    (∃ e, sendStateWithKey fmt tx d key mutate = (.error e, d)) ∨
    (Accepted fmt (keyedState key mutate d.sess.baseState) ∧
      sendStateWithKey fmt tx d key mutate = (.ok (), { d with
        sess := d.sess.commit (keyedState key mutate d.sess.baseState)
        log := d.log ++ [.txFrame (stateFrame fmt d.sess.codeGroup
          (keyedState key mutate d.sess.baseState))] })) := by
  unfold sendStateWithKey
  dsimp only
  cases hb : buildAcState fmt d.sess.codeGroup (keyedState key mutate d.sess.baseState) with
  | error e => exact .inl ⟨e, rfl⟩
  | ok f =>
    obtain ⟨hacc, rfl⟩ := buildAcState_eq_ok.mp hb
    dsimp only
    rcases sendFrame_cases tx (stateFrame fmt d.sess.codeGroup
      (keyedState key mutate d.sess.baseState)) d with hs | hs
    · rw [hs]
      exact .inl ⟨.arg, rfl⟩
    · rw [hs]
      exact .inr ⟨hacc, rfl⟩

/-- **What a call does**: it fails and changes nothing, it binds a code group, it sends a simple
frame, or it sends the frame of an accepted state and caches this state. -/
theorem Call.run_cases (fmt : Format) (tx : Tx) (d : Driver) (c : Call) :
    (∃ e, c.run fmt tx d = (.error e, d)) ∨
    (∃ codeGroup, c = .bindGroup codeGroup ∧ c.run fmt tx d = (.ok (), { d with
      sess := d.sess.bind codeGroup, log := d.log ++ [.bindGroup codeGroup] })) ∨
    (∃ funcCode, c = .acSimple funcCode ∧ c.run fmt tx d = (.ok (), { d with
      log := d.log ++ [.txFrame (buildAcSimple d.sess.codeGroup funcCode)] })) ∨
    (c.SendsState = true ∧ ∃ key mutate, c.request fmt d.sess.baseState = some (key, mutate) ∧
      Accepted fmt (keyedState key mutate d.sess.baseState) ∧
      c.run fmt tx d = (.ok (), { d with
        sess := d.sess.commit (keyedState key mutate d.sess.baseState)
        log := d.log ++ [.txFrame (stateFrame fmt d.sess.codeGroup
          (keyedState key mutate d.sess.baseState))] })) := by
  cases c using Call.casesSends with
  | bindGroup codeGroup =>
    simp only [Call.run, Hxd019.bindGroup]
    split
    · exact .inl ⟨.arg, rfl⟩
    · exact .inr (.inl ⟨codeGroup, rfl, rfl⟩)
  | acSimple funcCode =>
    simp only [Call.run, Hxd019.acSimple]
    split
    · exact .inl ⟨.noent, rfl⟩
    · rcases sendFrame_cases tx (buildAcSimple d.sess.codeGroup funcCode) d with hs | hs
      · exact .inl ⟨.arg, hs⟩
      · exact .inr (.inr (.inl ⟨funcCode, rfl, hs⟩))
  | sendsState c hc =>
    rw [Call.run_sendsState hc]
    cases hreq : c.request fmt d.sess.baseState with
    | none => exact .inl ⟨.key7, rfl⟩
    | some req =>
      obtain ⟨key, mutate⟩ := req
      rcases sendStateWithKey_cases fmt tx d key mutate with herr | ⟨hacc, hok⟩
      · exact .inl herr
      · exact .inr (.inr (.inr ⟨hc, key, mutate, rfl, hacc, hok⟩))

/-! ## The fields that a call changes -/

/-- The fields of the state other than the key. -/
inductive Field where
  | temp
  | fan
  | swing
  | swingAuto
  | power
  | mode
  | sleep
  | auxHeat
  | light
  | eco
  deriving DecidableEq, Repr

/-- The value of a field. -/
def AcState.get (s : AcState) : Field → UInt8
  | .temp => s.tempC
  | .fan => s.fan
  | .swing => s.swing
  | .swingAuto => s.swingAuto
  | .power => s.power
  | .mode => s.mode
  | .sleep => s.sleep
  | .auxHeat => s.auxHeat
  | .light => s.light
  | .eco => s.eco

/-- The field that a function `mut_*` assigns. -/
def Mutate.field : Mutate → Field
  | .bool .power _ => .power
  | .bool .lrswing _ => .swingAuto
  | .bool .sleep _ => .sleep
  | .bool .auxHeat _ => .auxHeat
  | .bool .light _ => .light
  | .bool .eco _ => .eco
  | .temp _ => .temp
  | .u8Mode _ => .mode
  | .u8Fan _ => .fan
  | .u8Swing _ => .swing

/-- The field of a convenience function. -/
def Call.field : Call → Option Field
  | .bindGroup _ | .acSimple _ | .acSendKey _ => none
  | .acPower _ => some .power
  | .acTemp _ | .acTempStep _ => some .temp
  | .acMode _ => some .mode
  | .acFan _ => some .fan
  | .acSwing _ => some .swing
  | .acLrswing _ => some .swingAuto
  | .acSleep _ => some .sleep
  | .acAuxHeat _ => some .auxHeat
  | .acLight _ => some .light
  | .acEco _ => some .eco

/-- The value that a convenience function gives to its field, when `prev` is the state before. -/
def Call.value (prev : AcState) : Call → Option UInt8
  | .bindGroup _ | .acSimple _ | .acSendKey _ => none
  | .acPower on => some (if on then powerOn else powerOff)
  | .acTemp tempC => some tempC
  | .acTempStep delta => some (steppedTemp delta prev)
  | .acMode mode => some mode
  | .acFan fan => some fan
  | .acSwing swing => some swing
  | .acLrswing on => some (if on then lrswingOn else lrswingOff)
  | .acSleep on | .acAuxHeat on | .acLight on | .acEco on => some (if on then 1 else 0)

/-- The states differ at most in the given field and in the key. -/
def DiffersAt (field : Option Field) (s s' : AcState) : Prop :=
  ∀ x, some x ≠ field → s'.get x = s.get x

theorem keyedState_differsAt (key : UInt8) (mutate : Option Mutate) (base : AcState) :
    DiffersAt (mutate.map Mutate.field) base (keyedState key mutate base) := by
  intro x hx
  cases mutate with
  | none => cases x <;> rfl
  | some m =>
    cases m with
    | bool field on => cases field <;> cases x <;> first | rfl | exact absurd rfl hx
    | temp | u8Mode | u8Fan | u8Swing => cases x <;> first | rfl | exact absurd rfl hx

/-- The request of a function changes its own field. -/
theorem Call.request_field {base : AcState} {key : UInt8} {mutate : Option Mutate}
    (h : c.request fmt base = some (key, mutate)) : mutate.map Mutate.field = c.field := by
  cases c with
  | bindGroup | acSimple => cases h
  | acSleep | acAuxHeat | acLight | acEco =>
    simp only [Call.request] at h
    split at h
    · cases h
      rfl
    · cases h
  | _ =>
    cases h
    rfl

/-- A function `mut_*` gives its field the value of the call. -/
theorem Call.request_value {base : AcState} {key : UInt8} {mutate : Option Mutate}
    (h : c.request fmt base = some (key, mutate)) {x : Field} (hx : c.field = some x) :
    some ((keyedState key mutate base).get x) = c.value base := by
  cases c with
  | bindGroup | acSimple | acSendKey => cases hx
  | acSleep | acAuxHeat | acLight | acEco =>
    simp only [Call.request] at h
    split at h
    · cases h
      cases hx
      rfl
    · cases h
  | _ =>
    cases h
    cases hx
    rfl

/-! ## The cache -/

/-- The state before a call, for what it changes: the one that was cached, or the default state if
there is none. -/
def Driver.previous (d : Driver) : AcState :=
  match d.sess.hasState with
  | true => d.sess.lastState
  | false => acStateDefault

theorem baseState_previous : d.sess.baseState = d.previous := by
  unfold Session.baseState Driver.previous
  cases d.sess.hasState <;> rfl

/-- The last frame with a full state in the log, since the last bind. -/
def lastStateFrame (log : List LogLine) : Option Frame :=
  log.foldl (fun last line => match line with
    | .txFrame f => if IsStateFrame f then some f else last
    | .bindGroup _ => none) none

/-- If there is a cached state, it has a frame for the bound group, which is the last one that was
sent since the last bind. -/
def Cached (fmt : Format) (d : Driver) : Prop :=
  d.sess.hasState = true → ∃ f, buildAcState fmt d.sess.codeGroup d.sess.lastState = .ok f ∧
    lastStateFrame d.log = some f

theorem lastStateFrame_snoc {log : List LogLine} {line : LogLine} :
    lastStateFrame (log ++ [line]) = match line with
      | .txFrame f => if IsStateFrame f then some f else lastStateFrame log
      | .bindGroup _ => none := by
  unfold lastStateFrame
  rw [List.foldl_append]
  rfl

/-- Every call keeps it. -/
theorem Cached.run (h : Cached fmt d) : Cached fmt (c.run fmt tx d).2 := by
  rcases Call.run_cases fmt tx d c with ⟨e, hrun⟩ | ⟨codeGroup, -, hrun⟩ | ⟨funcCode, -, hrun⟩ |
    ⟨-, key, mutate, -, hacc, hrun⟩
  · rw [hrun]
    exact h
  · rw [hrun]
    intro hs
    cases hs
  · rw [hrun]
    intro hs
    obtain ⟨f, hf, hlast⟩ := h hs
    refine ⟨f, hf, ?_⟩
    rw [lastStateFrame_snoc]
    exact hlast
  · rw [hrun]
    intro _
    refine ⟨_, buildAcState_eq_ok.mpr ⟨hacc, rfl⟩, ?_⟩
    rw [lastStateFrame_snoc]
    exact if_pos stateFrame_isStateFrame

theorem Cached.reach (hr : (api fmt).Reach d) : Cached fmt d := by
  refine hr.invariant ?_ fun l s s' _ hs hst => ?_
  · rintro _ ⟨txMutex, rfl⟩ hs
    cases hs
  · cases hst
    exact hs.run

/-- **The cache is what was sent**: after any calls, a cached state has a frame for the bound group,
and it is the last full-state frame sent since the last bind; a call that fails leaves the session
as it is; a convenience function that succeeds gives its own field its value, and changes nothing
else of the cached state (or of the default state, if there is none) but the key. -/
theorem cache_sound (hr : (api fmt).Reach d) :
    (d.sess.hasState = true → ∃ f, buildAcState fmt d.sess.codeGroup d.sess.lastState = .ok f ∧
      lastStateFrame d.log = some f) ∧
    ∀ (c : Call) (tx : Tx),
      (∀ e, (c.run fmt tx d).1 = .error e → (c.run fmt tx d).2.sess = d.sess) ∧
      (c.SendsState = true → (c.run fmt tx d).1 = .ok () →
        (c.run fmt tx d).2.sess.codeGroup = d.sess.codeGroup ∧
        (c.run fmt tx d).2.sess.hasState = true ∧
        DiffersAt c.field d.previous (c.run fmt tx d).2.sess.lastState ∧
        ∀ x, c.field = some x →
          some ((c.run fmt tx d).2.sess.lastState.get x) = c.value d.previous) := by
  refine ⟨Cached.reach hr, fun c tx => ?_⟩
  rcases Call.run_cases fmt tx d c with ⟨e, hrun⟩ | ⟨codeGroup, rfl, hrun⟩ |
    ⟨funcCode, rfl, hrun⟩ | ⟨-, key, mutate, hreq, -, hrun⟩
  · rw [hrun]
    exact ⟨fun _ _ => rfl, nofun⟩
  · rw [hrun]
    exact ⟨nofun, nofun⟩
  · rw [hrun]
    exact ⟨nofun, nofun⟩
  · rw [hrun]
    rw [← baseState_previous]
    refine ⟨nofun, fun _ _ => ⟨rfl, rfl, ?_, fun x hx => Call.request_value hreq hx⟩⟩
    rw [← Call.request_field hreq]
    exact keyedState_differsAt key mutate d.sess.baseState

/-- The group 830 is bound, and the fan is set to 4. -/
def fanSet : Driver :=
  (api .key7).run [(.bindGroup 830, ⟨true, 0⟩), (.acFan 4, ⟨true, 16⟩)] ⟨true, .init, []⟩

/-- The cached state has the frame that was sent; the fan stays at 4 when the temperature is set. -/
theorem cache_sound_fanSet :
    lastStateFrame fanSet.log = some [0x30, 0x01, 0x03, 0x3E, 0x19, 0x04, 0x02, 0x01, 0x00, 0x03,
      0x01, 0x03, 0x00, 0x00, 0xFF, 0x98] ∧
    ((Call.acTemp 20).run .key7 ⟨true, 16⟩ fanSet).2.sess.lastState.fan = 4 ∧
    ((Call.acTemp 20).run .key7 ⟨true, 16⟩ fanSet).2.sess.lastState.tempC = 20 := by
  have hi : (api .key7).Reach ⟨true, .init, []⟩ := .init ⟨true, rfl⟩
  have hr : (api .key7).Reach fanSet := Lib.Lts.run_reach hi _
  obtain ⟨hcached, hcall⟩ := cache_sound hr
  obtain ⟨-, hchange⟩ := hcall (.acTemp 20) ⟨true, 16⟩
  obtain ⟨-, -, hrest, hvalue⟩ := hchange rfl rfl
  refine ⟨?_, (hrest .fan (by decide)).trans (by decide +kernel),
    Option.some.inj (hvalue .temp rfl)⟩
  obtain ⟨f, hf, hlast⟩ := hcached (by decide +kernel)
  rw [hlast]
  obtain ⟨-, rfl⟩ := buildAcState_eq_ok.mp hf
  decide +kernel

end BleOta.Hxd019
