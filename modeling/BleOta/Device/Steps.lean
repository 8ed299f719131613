import BleOta.Component.Lemmas
import BleOta.Device.Defs
import BleOta.Sink.Invariant

/-!
# What a step of the device can do

`Act B l d d'`: the step with the label `l` takes `d` to `d'`. There is one case for each way
through the code of the two tasks, with its guard; the invariants split on these cases
(`step_act`). A call of the sink and a later section of it are one case each (`calls`, `sections`):
what they do to the sink is `Sect`.

* `sim`: the device simulates the sink with the pump as its serial caller, so every invariant of
  the sink holds of the device (`view_reach`).
-/

namespace BleOta

open Lib (Ring)

/-- The call of the sink that the pump does at its place. -/
def Pump.callOf (p : Pump) : PumpPc → Option (Op Cell)
  | .opening size => some (.sessionOpen (some ⟨size, false⟩))
  | .writing => some (.write p.epoch (some p.data))
  | .finishing => some (.finish p.epoch)
  | .activating => some (.activate p.epoch true)
  | .aborting => some (.sessionAbort p.epoch)
  | _ => none

namespace Device

variable {B : Board} {d d' : Device}

@[simp] theorem emit_comp (es : List DevEv) : (d.emit es).comp = d.comp := rfl
@[simp] theorem emit_armed (es : List DevEv) : (d.emit es).armed = d.armed := rfl
@[simp] theorem emit_openBlocked (es : List DevEv) : (d.emit es).openBlocked = d.openBlocked := rfl
@[simp] theorem emit_ring (es : List DevEv) : (d.emit es).ring = d.ring := rfl
@[simp] theorem emit_sink (es : List DevEv) : (d.emit es).sink = d.sink := rfl
@[simp] theorem emit_pump (es : List DevEv) : (d.emit es).pump = d.pump := rfl
@[simp] theorem emit_nimble (es : List DevEv) : (d.emit es).nimble = d.nimble := rfl
@[simp] theorem emit_clock (es : List DevEv) : (d.emit es).clock = d.clock := rfl

theorem emit_log (es : List DevEv) : (d.emit es).log = d.log ++ es.map (d.clock, ·) := rfl

/-- The ways through the code of the two tasks (module doc). -/
inductive Act (B : Board) (d : Device) : DevLabel → Device → Prop
  /-- A packet that ends no sector. -/
  | reply {om frame err c} : d.nimble = .idle → recvFwWrite om d.comp = (c, .reply frame err) →
      Act B d (.ble (.packet om)) ({ d with comp := c }.emit
        (frame.toList.flatMap ({ d with comp := c }.notified .recvFw · [])))
  | sectorEnd {om sector delivered frame c} : d.nimble = .idle →
      recvFwWrite om d.comp = (c, .sectorEnd sector delivered frame) →
      Act B d (.ble (.packet om))
        { d with comp := c, nimble := .recvCheck sector delivered frame }
  | start {om malloc frame c} : d.nimble = .idle →
      bleOtaStartWriteChr om malloc d.comp = (c, .started frame) →
      Act B d (.ble (.command om malloc))
        { { d with comp := c }.emit ({ d with comp := c }.notified .cmd frame []) with
          nimble := .startArm }
  | stop {om malloc frame c} : d.nimble = .idle →
      bleOtaStartWriteChr om malloc d.comp = (c, .stopped frame) →
      Act B d (.ble (.command om malloc))
        { { d with comp := c }.emit ({ d with comp := c }.notified .cmd frame []) with
          nimble := .stopDisarm }
  | otherCommand {om malloc c} : d.nimble = .idle →
      bleOtaStartWriteChr om malloc d.comp = (c, .ignored) →
      Act B d (.ble (.command om malloc)) { d with comp := c }
  | subscribe {n} : d.nimble = .idle → Act B d (.ble (.subscribe n))
      { d with comp := { d.comp with otaNotification := n } }
  | disconnect : d.nimble = .idle → Act B d (.ble .disconnect) { d with armed := false }
  | recvPass {n sector delivered frame} : d.nimble = .recvCheck sector delivered frame →
      d.armed = true → d.openBlocked = false →
      Act B d (.nimble n) { d with nimble := .recvSend sector delivered frame }
  | recvRefuse {n sector delivered frame} : d.nimble = .recvCheck sector delivered frame →
      ¬(d.armed = true ∧ d.openBlocked = false) →
      Act B d (.nimble n)
        { d.emit (.refused delivered :: d.notified .recvFw frame sector) with nimble := .idle }
  | sendOk {n sector delivered frame ring} : d.nimble = .recvSend sector delivered frame →
      d.ring.send (d.cells delivered) = some ring →
      Act B d (.nimble n)
        { d.emit (.accepted (d.cells delivered) :: d.notified .recvFw frame sector) with
          ring := ring, nimble := .idle }
  | sendFull {n sector delivered frame} : d.nimble = .recvSend sector delivered frame →
      d.ring.send (d.cells delivered) = none →
      Act B d (.nimble n)
        { d.emit (.refused delivered :: d.notified .recvFw frame sector) with nimble := .idle }
  | startArm {n} : d.nimble = .startArm →
      Act B d (.nimble n) { d with armed := true, clock := d.clock + 1, nimble := .startUnblock }
  | startUnblock {n} : d.nimble = .startUnblock →
      Act B d (.nimble n) { d with openBlocked := false, nimble := .startFlush }
  | flushTake {n item ring} : d.nimble = .startFlush → d.ring.receive n = some (item, ring) →
      Act B d (.nimble n) { d with ring := ring, nimble := .startReturn item }
  | flushDone {n} : d.nimble = .startFlush → d.ring.receive n = none →
      Act B d (.nimble n) { d with nimble := .startInvalidate }
  | flushReturn {n item} : d.nimble = .startReturn item →
      Act B d (.nimble n)
        { d.emit [.flushed item] with ring := d.ring.giveBack, nimble := .startFlush }
  | startInvalidate {n} : d.nimble = .startInvalidate →
      Act B d (.nimble n)
        { d.emit [.sink .poke] with
          sink := invalidate d.sink, clock := d.clock + 1, nimble := .idle }
  | stopDisarm {n} : d.nimble = .stopDisarm →
      Act B d (.nimble n) { d with armed := false, nimble := .idle }
  | take {n idf item ring} : d.pump.pc = .receive → d.ring.receive n = some (item, ring) →
      Act B d (.pump n idf)
        { d with ring := ring, pump := { d.pump with data := item, pc := .arrived } }
  | timesOut {n idf} : d.pump.pc = .receive → d.ring.receive n = none →
      Act B d (.pump n idf) { d with pump := { d.pump with pc := .timeout } }
  | timeoutAbort {n idf} : d.pump.pc = .timeout → d.pump.epoch ≠ 0 → d.armed = false →
      Act B d (.pump n idf) { d with pump := { d.pump with pc := .aborting } }
  | timeoutBack {n idf} : d.pump.pc = .timeout → (d.pump.epoch = 0 ∨ d.armed = true) →
      Act B d (.pump n idf) { d with pump := { d.pump with pc := .receive } }
  | emptyItem {n idf} : d.pump.pc = .arrived → d.pump.data = [] →
      Act B d (.pump n idf)
        { d with ring := d.ring.giveBack, pump := { d.pump with pc := .receive } }
  | lazyOpen {n idf} : d.pump.pc = .arrived → d.pump.data ≠ [] → d.pump.epoch = 0 →
      d.armed = true → Act B d (.pump n idf) { d with pump := { d.pump with pc := .readLen } }
  | toWrite {n idf} : d.pump.pc = .arrived → d.pump.data ≠ [] → d.pump.epoch ≠ 0 →
      Act B d (.pump n idf) { d with pump := { d.pump with pc := .writing } }
  | unarmed {n idf} : d.pump.pc = .arrived → d.pump.data ≠ [] → d.pump.epoch = 0 →
      d.armed = false → Act B d (.pump n idf) { d with pump := { d.pump with pc := .giveBack } }
  | zero {n idf} : d.pump.pc = .readLen → d.comp.otaTotalLen = 0 →
      Act B d (.pump n idf) { d with pump := { d.pump with pc := .zeroLen } }
  | length {n idf} : d.pump.pc = .readLen → d.comp.otaTotalLen ≠ 0 →
      Act B d (.pump n idf) { d with pump := { d.pump with pc := .opening d.comp.otaTotalLen } }
  | zeroBlock {n idf} : d.pump.pc = .zeroLen →
      Act B d (.pump n idf) { d with openBlocked := true, pump := { d.pump with pc := .giveBack } }
  | failBlock {n idf} : d.pump.pc = .openFailed →
      Act B d (.pump n idf)
        { d with openBlocked := true, pump := { d.pump with epoch := 0, pc := .giveBack } }
  | giveBack {n idf} : d.pump.pc = .giveBack →
      Act B d (.pump n idf)
        { d.emit [.dropped d.pump.data] with
          ring := d.ring.giveBack, pump := { d.pump with data := [], pc := .receive } }
  | wroteOk {n idf err} : d.pump.pc = .wrote err → err = .ok ∨ err = .nvs →
      Act B d (.pump n idf)
        { d with
          ring := d.ring.giveBack
          pump := { d.pump with
            bytesPumped := u32 (d.pump.bytesPumped + u32 d.pump.data.length), data := []
            pc := if 0 < d.pump.fwLen ∧
                d.pump.fwLen ≤ u32 (d.pump.bytesPumped + u32 d.pump.data.length)
              then .finishing else .receive } }
  | wroteFail {n idf err} : d.pump.pc = .wrote err → err ≠ .ok → err ≠ .nvs →
      Act B d (.pump n idf)
        { d.emit [.dropped d.pump.data] with
          ring := d.ring.giveBack, pump := { d.pump with data := [], pc := .aborting } }
  | calls {n idf op out} : d.pump.callOf d.pump.pc = some op →
      otaSinkEnter B op idf d.sink = out → Sect B (op, idf) none d.sink out →
      Act B d (.pump n idf) (d.doSection (op, idf) [.call (op, idf)] out)
  | sections {n idf o pc out} : d.pump.pc = .inSink o pc → otaSinkResume o.2 pc d.sink = out →
      Sect B o (some pc) d.sink out →
      Act B d (.pump n idf) (d.doSection o [] out)

theorem bleStep_act {e : BleEvent} (h : bleStep e d = some d') : Act B d (.ble e) d' := by
  unfold bleStep at h
  split at h
  · cases h
  next hidle =>
  rw [ne_eq, not_not] at hidle
  cases e with
  | packet om =>
    dsimp only at h
    rcases hout : recvFwWrite om d.comp with ⟨c, out⟩
    rw [hout] at h
    cases out with
    | reply frame err => cases h; exact .reply hidle hout
    | sectorEnd sector delivered frame => cases h; exact .sectorEnd hidle hout
  | command om malloc =>
    dsimp only at h
    rcases hout : bleOtaStartWriteChr om malloc d.comp with ⟨c, out⟩
    rw [hout] at h
    cases out with
    | started frame => cases h; exact .start hidle hout
    | stopped frame => cases h; exact .stop hidle hout
    | ignored => cases h; exact .otherCommand hidle hout
  | subscribe n => cases h; exact .subscribe hidle
  | disconnect => cases h; exact .disconnect hidle

theorem nimbleStep_act {n : Nat} (h : nimbleStep n d = some d') : Act B d (.nimble n) d' := by
  unfold nimbleStep at h
  split at h
  · cases h
  next sector delivered frame hpc =>
    split at h
    · next hg => cases h; exact .recvPass hpc hg.1 (by simpa using hg.2)
    · next hg => cases h; exact .recvRefuse hpc (by simpa using hg)
  next sector delivered frame hpc =>
    split at h
    · next ring hs => cases h; exact .sendOk hpc hs
    · next hs => cases h; exact .sendFull hpc hs
  next hpc => cases h; exact .startArm hpc
  next hpc => cases h; exact .startUnblock hpc
  next hpc =>
    split at h
    · next item ring hr => cases h; exact .flushTake hpc hr
    · next hr => cases h; exact .flushDone hpc hr
  next item hpc => cases h; exact .flushReturn hpc
  next hpc => cases h; exact .startInvalidate hpc
  next hpc => cases h; exact .stopDisarm hpc

theorem pumpStep_act {n : Nat} {idf : Idf} (h : pumpStep B n idf d = some d') :
    Act B d (.pump n idf) d' := by
  unfold pumpStep at h
  dsimp only at h
  split at h
  next hpc =>
    split at h
    · next item ring hr => cases h; exact .take hpc hr
    · next hr => cases h; exact .timesOut hpc hr
  next hpc =>
    split at h
    · next hg => cases h; exact .timeoutAbort hpc hg.1 (by simpa using hg.2)
    · next hg =>
      cases h
      refine .timeoutBack hpc ?_
      by_cases he : d.pump.epoch = 0
      · exact .inl he
      · exact .inr (by simpa [he] using hg)
  next hpc =>
    split at h
    · next hz => cases h; exact .emptyItem hpc (List.length_eq_zero_iff.mp hz)
    next hz =>
    have hne : d.pump.data ≠ [] := fun he => hz (List.length_eq_zero_iff.mpr he)
    split at h
    · next hg => cases h; exact .lazyOpen hpc hne hg.1 hg.2
    next hg =>
    split at h
    · next he => cases h; exact .toWrite hpc hne he
    · next he =>
      cases h
      have he' : d.pump.epoch = 0 := not_not.mp he
      exact .unarmed hpc hne he' (by simpa [he'] using hg)
  next hpc =>
    split at h
    · next hl => cases h; exact .zero hpc hl
    · next hl => cases h; exact .length hpc hl
  next hpc => cases h; exact .zeroBlock hpc
  next size hpc => cases h; exact .calls (by rw [hpc]; rfl) rfl (enter_sect _ _)
  next hpc => cases h; exact .failBlock hpc
  next hpc => cases h; exact .giveBack hpc
  next hpc => cases h; exact .calls (by rw [hpc]; rfl) rfl (enter_sect _ _)
  next err hpc =>
    split at h
    · next he => cases h; exact .wroteOk hpc he
    · next he => 
      cases h
      exact .wroteFail hpc (fun h => he (.inl h)) (fun h => he (.inr h))
  next hpc => cases h; exact .calls (by rw [hpc]; rfl) rfl (enter_sect _ _)
  next hpc => cases h; exact .calls (by rw [hpc]; rfl) rfl (enter_sect _ _)
  next hpc => cases h; exact .calls (by rw [hpc]; rfl) rfl (enter_sect _ _)
  next o pc hpc => cases h; exact .sections hpc rfl (resume_sect _ _ _)
  · cases h

/-- **Every step of the device** is one of the ways. -/
theorem step_act {l : DevLabel} (h : (system B).step l d = some d') : Act B d l d' := by
  cases l with
  | ble e => exact bleStep_act h
  | nimble n => exact nimbleStep_act h
  | pump n idf => exact pumpStep_act h

/-! ## The device simulates the sink -/

theorem sinkLog_append (l l' : List (Nat × DevEv)) : sinkLog (l ++ l') = sinkLog l ++ sinkLog l' :=
  List.filterMap_append

theorem sinkLog_stamped (k : Nat) (es : List DevEv) :
    sinkLog (es.map (k, ·)) = es.filterMap sinkEntry := by
  rw [sinkLog, List.filterMap_map]
  rfl

@[simp] theorem sinkLog_emit (es : List DevEv) :
    sinkLog (d.emit es).log = sinkLog d.log ++ es.filterMap sinkEntry := by
  rw [emit_log, sinkLog_append, sinkLog_stamped]

@[simp] theorem sinkEntry_sink (e : SinkEntry Cell) : sinkEntry (.sink e) = some e := rfl
@[simp] theorem sinkEntry_accepted (data : List Cell) : sinkEntry (.accepted data) = none := rfl
@[simp] theorem sinkEntry_refused (data : List UInt8) : sinkEntry (.refused data) = none := rfl
@[simp] theorem sinkEntry_flushed (data : List Cell) : sinkEntry (.flushed data) = none := rfl
@[simp] theorem sinkEntry_dropped (data : List Cell) : sinkEntry (.dropped data) = none := rfl

@[simp] theorem sinkEntry_notified (c : OtaChar) (frame sector : List UInt8) :
    (d.notified c frame sector).filterMap sinkEntry = [] := by
  unfold notified
  cases espBleOtaNotificationData d.comp c frame <;> rfl

theorem sinkEntry_reply (frame : Option (List UInt8)) :
    (frame.toList.flatMap (d.notified .recvFw · [])).filterMap sinkEntry = [] := by
  cases frame with
  | none => rfl
  | some f => simp

theorem sinkEntry_sinks (es : List (SinkEntry Cell)) :
    (es.map DevEv.sink).filterMap sinkEntry = es := by
  induction es with
  | nil => rfl
  | cons e es ih => exact congrArg (e :: ·) ih

/-- The entries of a section in the log of the sink. -/
theorem sinkLog_section (o : SinkCall Cell) (es : List (SinkEntry Cell)) (out : Out Cell) :
    sinkLog (d.doSection o es out).log = sinkLog d.log ++ (es ++ sectionEntries o out) := by
  show sinkLog (d.emit ((es ++ sectionEntries o out).map .sink)).log = _
  rw [sinkLog_emit, sinkEntry_sinks]

/-- The place of the pump after a section is the one of the caller of the sink. -/
theorem place_after (o : SinkCall Cell) (es : List (SinkEntry Cell)) (out : Out Cell) :
    (d.doSection o es out).place = (sinkCode Cell B).next o out.2.2 := by
  have hp : (d.doSection o es out).pump = d.pump.after o out.2.2 := rfl
  unfold place
  rw [hp]
  obtain ⟨op, idf⟩ := o
  rcases out.2.2 with pc | ⟨err, e⟩ | _
  · rfl
  · have hn : (sinkCode Cell B).next (op, idf) (.inr (.ret err e)) = .idle := rfl
    rw [hn]
    cases op with
    | sessionOpen cfg =>
      by_cases he : err = .ok <;> by_cases hz : e.getD 0 = 0 <;> simp [Pump.after, he, hz]
    | finish => by_cases he : err = .ok <;> simp [Pump.after, he, Pump.reset]
    | write | activate | sessionAbort => rfl
  · rfl

/-- A section of the sink by the pump, seen as a section of the sink. -/
theorem view_doSection (o : SinkCall Cell) (es : List (SinkEntry Cell)) (out : Out Cell) :
    (d.doSection o es out).view =
      (sinkCode Cell B).after o { d.view with log := d.view.log ++ es } out := by
  have h1 : (d.doSection o es out).view.place = (sinkCode Cell B).next o out.2.2 :=
    place_after o es out
  have h2 : (d.doSection o es out).view.log = d.view.log ++ (es ++ sectionEntries o out) := by
    show sinkLog (d.emit _).log = _
    rw [sinkLog_emit, sinkEntry_sinks]
    rfl
  have h3 : (d.doSection o es out).view.st = out.1 := rfl
  obtain ⟨s, evs, r⟩ := out
  generalize (d.doSection o es (s, evs, r)).view = v at h1 h2 h3
  obtain ⟨st, place, log⟩ := v
  simp only at h1 h2 h3
  subst h1 h2 h3
  cases r <;> simp [Lib.Code.after, Lib.Code.next, sectionEntries, Lib.Code.returned]

theorem sinkSystem_step (m : Lib.Move (SinkCall Cell)) (x : SinkSys Cell) :
    (sinkSystem Cell B).step m x = (sinkCode Cell B).step m x := rfl

/-- The pump calls the sink only outside of its functions. -/
theorem place_of_callOf {op : Op Cell} (h : d.pump.callOf d.pump.pc = some op) :
    d.place = .idle := by
  unfold place
  generalize d.pump.pc = pc at h
  cases pc <;> first | rfl | cases h

/-- **The device simulates the sink**: the pump is its serial caller, and the Start callbacks are
the invalidations. -/
theorem sim : Lib.Lts.Sim (system B) (sinkSystem Cell B) view := by
  refine ⟨fun d hd => by cases hd; rfl, fun l d d' hst => ?_⟩
  cases step_act hst with
  | @calls n idf op out hc ho hs =>
    refine .inr ⟨.call (op, idf), ?_⟩
    have hp : d.view.place = .idle := place_of_callOf hc
    rw [view_doSection (B := B), ← ho, sinkSystem_step]
    simp only [Lib.Code.step, hp]
    rfl
  | @sections n idf o pc out hpc ho hs =>
    refine .inr ⟨.run, ?_⟩
    have hp : d.view.place = .busy o pc := by
      show d.place = _
      simp only [place, hpc]
    rw [view_doSection (B := B), ← ho, List.append_nil, sinkSystem_step]
    simp only [Lib.Code.step, hp]
    rfl
  | startInvalidate hpc =>
    refine .inr ⟨.poke, ?_⟩
    show some _ = some _
    simp only [view, sinkLog_emit]
    rfl
  | recvRefuse | sendOk | sendFull =>
    refine .inl ?_
    simp only [view, place, sinkLog_emit, List.filterMap_cons, sinkEntry_refused,
      sinkEntry_accepted, sinkEntry_notified, List.append_nil, emit_sink, emit_pump]
  | reply | start | stop | otherCommand | flushReturn =>
    refine .inl ?_
    simp [view, sinkEntry_reply, place]
  | sectorEnd | subscribe | disconnect | recvPass | startArm | startUnblock | flushTake | flushDone
    | stopDisarm =>
    exact .inl rfl
  | take hpc | timesOut hpc | timeoutAbort hpc | timeoutBack hpc | emptyItem hpc | lazyOpen hpc
    | toWrite hpc | unarmed hpc | zero hpc | length hpc | zeroBlock hpc | failBlock hpc
    | giveBack hpc | wroteFail hpc =>
    refine .inl ?_
    simp [view, place, hpc]
  | wroteOk hpc =>
    refine .inl ?_
    by_cases hg : 0 < d.pump.fwLen ∧
        d.pump.fwLen ≤ u32 (d.pump.bytesPumped + u32 d.pump.data.length) <;>
      simp [view, place, hpc, hg]

variable {B : Board}

/-- In every reachable state of the device, the sink is in a reachable state. -/
theorem view_reach (h : (system B).Reach d) : (sinkSystem Cell B).Reach d.view := sim.reach h

theorem sinkOk (h : (system B).Reach d) : SinkOk d.place d.sink := SinkOk.reach (view_reach h)

/-- A step of the NimBLE host task leaves the pump, and does to the sink nothing or an
invalidation. -/
theorem nimble_step_sink {l : DevLabel} (hst : (system B).step l d = some d')
    (hl : ∀ n idf, l ≠ .pump n idf) : d'.pump = d.pump ∧
      ((d'.sink = d.sink ∧ sinkLog d'.log = sinkLog d.log) ∨
        (d.nimble = .startInvalidate ∧ d'.sink = invalidate d.sink ∧
          sinkLog d'.log = sinkLog d.log ++ [.poke])) := by
  cases step_act hst with
  | sectorEnd | otherCommand | subscribe | disconnect | recvPass | startArm | startUnblock
    | flushTake | flushDone | stopDisarm =>
    exact ⟨rfl, .inl ⟨rfl, rfl⟩⟩
  | reply | start | stop => exact ⟨rfl, .inl ⟨rfl, by simp [sinkEntry_reply]⟩⟩
  | recvRefuse | sendOk | sendFull | flushReturn =>
    exact ⟨rfl, .inl ⟨rfl, by simp [List.filterMap_cons]⟩⟩
  | startInvalidate hn => exact ⟨rfl, .inr ⟨hn, rfl, by simp⟩⟩
  | _ => exact absurd rfl (hl _ _)

/-- A call of the sink in the log is the one of the place of the pump. -/
theorem callOf_of_called {l : DevLabel} {o : SinkCall Cell} {new : List (SinkEntry Cell)}
    (hst : (system B).step l d = some d') (hc : sinkLog d'.log = sinkLog d.log ++ .call o :: new) :
    d.pump.callOf d.pump.pc = some o.1 := by
  have hsame : sinkLog d'.log ≠ sinkLog d.log := by
    intro hx
    have := congrArg List.length (hx.symm.trans hc)
    simp at this
  by_cases hl : ∃ n idf, l = .pump n idf
  · obtain ⟨n, idf, rfl⟩ := hl
    cases step_act hst with
    | calls hcall =>
      rw [sinkLog_section, List.append_cancel_left_eq] at hc
      cases hc
      exact hcall
    | @sections _ _ o' _ out =>
      rw [sinkLog_section, List.append_cancel_left_eq, List.nil_append, sectionEntries] at hc
      obtain ⟨s, evs, r⟩ := out
      rcases evs with _ | ⟨ev, evs⟩
      · rcases r with pc | r <;> cases hc
      · cases hc
    | giveBack | wroteFail => exact absurd (by simp) hsame
    | _ => exact absurd rfl hsame
  · obtain ⟨-, ⟨-, hlog⟩ | ⟨-, -, hlog⟩⟩ := nimble_step_sink hst fun n idf he => hl ⟨n, idf, he⟩
    · exact absurd hlog hsame
    · rw [hlog, List.append_cancel_left_eq] at hc
      cases hc

/-! ## Labels of runs -/

/-- The command Start with the declared length `len` (below 256). -/
def startCommand (len : UInt8) : DevLabel := .ble (.command [1, 0, len, 0, 0, 0] true)

/-- The steps of the Start callback with an empty ring. -/
def startCallback : List DevLabel := List.replicate 4 (.nimble 0)

/-- A packet of the sector `sector` that is all of it. -/
def wholePacket (sector : UInt8) (data : List UInt8) : DevLabel :=
  .ble (.packet ([sector, 0, 0xff] ++ data ++ [0, 0]))

/-- The steps of the NimBLE host task after such a packet: the test of the flags, the send. -/
def recvCallback : List DevLabel := List.replicate 2 (.nimble 0)

/-- Steps of the pump: a receive gets up to a whole sector, the IDF answers with `ESP_OK`. -/
def pumpSteps (n : Nat) : List DevLabel := List.replicate n (.pump 4095 .allOk)

/-- A Start, and a sector of two bytes that the pump writes. -/
def writtenSector : List DevLabel :=
  startCommand 8 :: startCallback ++ wholePacket 0 [1, 2] :: recvCallback ++ pumpSteps 6

end Device

end BleOta
