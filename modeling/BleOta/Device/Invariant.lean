import BleOta.Device.Steps

/-!
# The invariant of the device

* `DevOk`: the item that is out of the ring is the one of the pump, or of `ringbuf_flush`; the pump
  is inside the sink with its own epoch and item only.
* `DevOk.reach`: it holds in every reachable state.
* `HistoryOk.reach`: the clock is odd exactly inside a Start callback; no byte and no entry of the
  log is newer than the clock.
* `flash_item`: what the pump passes to `esp_ota_write` is its item.
* `Pump.callOf_cases`: the places where the pump calls the sink.
-/

namespace BleOta

open Lib (Ring)

/-- The pump has an item at its place. -/
def PumpPc.Holds : PumpPc → Prop
  | .receive | .timeout | .finishing | .activating | .aborting | .halted => False
  | .inSink o _ => ∃ e data, o.1 = .write e data
  | _ => True

/-- Only a write, a finish and an activate give the lock and go on. -/
theorem Sect.goes {α : Type} {B : Board} {o : SinkCall α} {s : SinkSt} {out : Out α} {pc : Pc α}
    (h : Sect B o none s out) (hr : out.2.2 = .inl pc) :
    (∃ e data, o.1 = .write e (some data)) ∨ (∃ e, o.1 = .finish e) ∨
      ∃ e r, o.1 = .activate e r := by
  cases h with
  | writes ho => exact .inl ⟨_, _, ho⟩
  | finishes ho => exact .inr (.inl ⟨_, ho⟩)
  | activates ho => exact .inr (.inr ⟨_, _, ho⟩)
  | refused | notOpened | beginFails | begins | aborts | drops => cases hr

/-- The places where the pump calls the sink. -/
theorem Pump.callOf_cases {p : Pump} {op : Op Cell} (h : p.callOf p.pc = some op) :
    (∃ size, p.pc = .opening size ∧ op = .sessionOpen (some ⟨size, false⟩)) ∨
    (p.pc = .writing ∧ op = .write p.epoch (some p.data)) ∨
    (p.pc = .finishing ∧ op = .finish p.epoch) ∨
    (p.pc = .activating ∧ op = .activate p.epoch true) ∨
    (p.pc = .aborting ∧ op = .sessionAbort p.epoch) := by
  generalize hpc : p.pc = pc at h
  cases pc <;> simp_all [Pump.callOf]

/-- What the pump keeps of its item after a section of the sink. -/
@[simp] theorem Pump.after_data (p : Pump) (o : SinkCall Cell) (r : Pc Cell ⊕ Ret) :
    (p.after o r).data = p.data := by
  obtain ⟨op, idf⟩ := o
  rcases r with pc | ⟨err, e⟩ | _
  · rfl
  · cases op <;> simp only [Pump.after] <;> (try split) <;> rfl
  · rfl

/-- The pump has its item after a section of the call `o` exactly if it had it before. -/
theorem Pump.after_holds (p : Pump) {o : SinkCall Cell} {r : Pc Cell ⊕ Ret}
    (hr : ∀ pc, r = .inl pc → ∀ cfg, o.1 ≠ .sessionOpen cfg) (hn : r ≠ .inr .restart) :
    (p.after o r).pc.Holds ↔ (∃ e data, o.1 = .write e data) ∨ ∃ cfg, o.1 = .sessionOpen cfg := by
  obtain ⟨op, idf⟩ := o
  rcases r with pc | ⟨err, e⟩ | _
  · have := hr pc rfl
    cases op <;> simp_all [Pump.after, PumpPc.Holds]
  · cases op with
    | sessionOpen cfg =>
      simp only [Pump.after]
      by_cases he : err = .ok <;> by_cases hz : e.getD 0 = 0 <;> simp [he, hz, PumpPc.Holds]
    | finish => by_cases he : err = .ok <;> simp [Pump.after, he, PumpPc.Holds, Pump.reset]
    | write | activate | sessionAbort => simp [Pump.after, PumpPc.Holds, Pump.reset]
  · exact absurd rfl hn

/-- The pump has received an item and not called `ota_sink_session_open` for it. -/
def PumpPc.BeforeOpen : PumpPc → Prop
  | .arrived | .readLen | .opening _ => True
  | _ => False

/-- After a section of the sink the pump is past the open of its item, or without an item. -/
theorem Pump.after_beforeOpen (p : Pump) (o : SinkCall Cell) (r : Pc Cell ⊕ Ret) :
    ¬(p.after o r).pc.BeforeOpen := by
  obtain ⟨op, idf⟩ := o
  rcases r with pc | ⟨err, e⟩ | _
  · exact id
  · cases op with
    | sessionOpen cfg =>
      simp only [Pump.after]
      by_cases he : err = .ok <;> by_cases hz : e.getD 0 = 0 <;> simp [he, hz, PumpPc.BeforeOpen]
    | finish => by_cases he : err = .ok <;> simp [Pump.after, he, Pump.reset, PumpPc.BeforeOpen]
    | write | activate | sessionAbort => exact id
  · exact id

/-- The pump has an item with which it may still open a session. -/
def Pump.MayOpen (p : Pump) : Prop :=
  match p.pc with
  | .arrived => p.epoch = 0
  | .readLen | .opening _ => True
  | _ => False

theorem Pump.MayOpen.beforeOpen {p : Pump} (h : p.MayOpen) : p.pc.BeforeOpen := by
  unfold Pump.MayOpen at h
  split at h
  next hpc => rw [hpc]; trivial
  next hpc => rw [hpc]; trivial
  next hpc => rw [hpc]; trivial
  · exact h.elim

/-- The places of an item that the pump opens no session for, or not yet. -/
def PumpPc.Lazy : PumpPc → Prop
  | .readLen | .zeroLen | .opening _ | .giveBack => True
  | _ => False

/-- The Start callback between its first and its last effect. -/
def NimblePc.InStart : NimblePc → Prop
  | .startUnblock | .startFlush | .startReturn _ | .startInvalidate => True
  | _ => False

/-- The bytes that an entry of the history is about. -/
def DevEv.cells : DevEv → List Cell
  | .sink (.ev (.otaWrite _ data _)) => data
  | .accepted data | .flushed data | .dropped data => data
  | _ => []

/-- After a section of the sink the pump is without an item that waits for an open, or it has no
epoch. -/
theorem Pump.after_lazy (p : Pump) (o : SinkCall Cell) (r : Pc Cell ⊕ Ret) :
    (p.after o r).pc.Lazy → (p.after o r).epoch = 0 := by
  obtain ⟨op, idf⟩ := o
  rcases r with pc | ⟨err, e⟩ | _
  · exact False.elim
  · cases op with
    | sessionOpen cfg =>
      simp only [Pump.after]
      by_cases he : err = .ok <;> by_cases hz : e.getD 0 = 0 <;> simp [he, hz, PumpPc.Lazy]
    | finish => by_cases he : err = .ok <;> simp [Pump.after, he, Pump.reset, PumpPc.Lazy]
    | write | activate | sessionAbort => exact False.elim
  · exact False.elim

namespace Device

/-- The invariant of the device (module doc). -/
structure DevOk (d : Device) : Prop where
  call : ∀ o pc, d.pump.pc = .inSink o pc → o.1 = .write d.pump.epoch (some d.pump.data) ∨
    o.1 = .finish d.pump.epoch ∨ o.1 = .activate d.pump.epoch true
  holds : d.pump.data ≠ [] ↔ d.pump.pc.Holds
  pump : d.pump.data ≠ [] → d.ring.held = some d.pump.data
  flush : ∀ item, d.nimble = .startReturn item →
    d.ring.held = some item ∧ item ≠ [] ∧ d.pump.data = []
  free : d.pump.data = [] → (∀ item, d.nimble ≠ .startReturn item) → d.ring.held = none

variable {B : Board} {d d' : Device} {l : DevLabel}

theorem DevOk.init : DevOk .init :=
  ⟨by rintro o pc ⟨⟩, by simp [Device.init, PumpPc.Holds], fun h => absurd rfl h, by rintro i ⟨⟩,
    fun _ _ => rfl⟩

/-- A step of the NimBLE host task that leaves the ring, outside of `ringbuf_flush`. -/
theorem DevOk.frame (h : DevOk d) (hp : d'.pump = d.pump) (hh : d'.ring.held = d.ring.held)
    (hn : ∀ item, d.nimble ≠ .startReturn item) (hn' : ∀ item, d'.nimble ≠ .startReturn item) :
    DevOk d' where
  call := hp ▸ h.call
  holds := hp ▸ h.holds
  pump := by rw [hp, hh]; exact h.pump
  flush item hi := absurd hi (hn' item)
  free hd _ := by rw [hh]; exact h.free (hp ▸ hd) hn

/-- A step of the pump that keeps its item and the ring. -/
theorem DevOk.pumpFrame (h : DevOk d) (hr : d'.ring = d.ring) (hn : d'.nimble = d.nimble)
    (hd : d'.pump.data = d.pump.data) (hpc : d'.pump.pc.Holds ↔ d.pump.pc.Holds)
    (hc : ∀ o pc, d'.pump.pc = .inSink o pc → o.1 = .write d'.pump.epoch (some d'.pump.data) ∨
      o.1 = .finish d'.pump.epoch ∨ o.1 = .activate d'.pump.epoch true) : DevOk d' where
  call := hc
  holds := by rw [hd, hpc]; exact h.holds
  pump := by rw [hd, hr]; exact h.pump
  flush := by rw [hn, hr, hd]; exact h.flush
  free := by rw [hn, hr, hd]; exact h.free

/-- The pump returns its item. -/
theorem DevOk.giveBack (h : DevOk d) (hh : d.pump.pc.Holds) (hr : d'.ring = d.ring.giveBack)
    (hn : d'.nimble = d.nimble) (hd : d'.pump.data = []) (hpc : ¬d'.pump.pc.Holds)
    (hc : ∀ o pc, d'.pump.pc ≠ .inSink o pc) : DevOk d' where
  call o pc hi := absurd hi (hc o pc)
  holds := by rw [hd]; exact ⟨fun h => absurd rfl h, fun h => absurd h hpc⟩
  pump hne := absurd hd hne
  flush item hi := absurd (h.flush item (hn ▸ hi)).2.2 (h.holds.mpr hh)
  free _ _ := by rw [hr]; rfl

theorem doSection_inl (o : SinkCall Cell) (es : List (SinkEntry Cell)) {out : Out Cell}
    {pc : Pc Cell} (hr : out.2.2 = .inl pc) :
    (d.doSection o es out).pump = { d.pump with pc := .inSink o pc } := by
  simp only [doSection, hr]
  rfl

/-- After a section that ends its call the pump is outside of the sink. -/
theorem doSection_inr (o : SinkCall Cell) (es : List (SinkEntry Cell)) {out : Out Cell} {r : Ret}
    (hr : out.2.2 = .inr r) (o' : SinkCall Cell) (pc : Pc Cell) :
    (d.doSection o es out).pump.pc ≠ .inSink o' pc := by
  intro hi
  have hpl := place_after (B := .otaSlots) (d := d) o es out
  rw [hr] at hpl
  simp only [place, hi, Lib.Code.next] at hpl
  split at hpl <;> cases hpl

/-- The pump begins a call of the sink: with its item, if it is a write. -/
theorem DevOk.calls {op : Op Cell} {idf : Idf} {out : Out Cell} (h : DevOk d)
    (hc : d.pump.callOf d.pump.pc = some op) (hs : Sect B (op, idf) none d.sink out) :
    DevOk (d.doSection (op, idf) [.call (op, idf)] out) := by
  have hnr : out.2.2 ≠ .inr .restart := by cases hs <;> simp
  have hgo := fun pc (hr : out.2.2 = .inl pc) => hs.goes hr
  refine h.pumpFrame rfl rfl (by simp [doSection]) ?_ ?_
  · refine (d.pump.after_holds (fun pc hr cfg he => ?_) hnr).trans ?_
    · rcases hgo pc hr with ⟨_, _, h1⟩ | ⟨_, h1⟩ | ⟨_, _, h1⟩ <;> rw [he] at h1 <;> cases h1
    · rcases d.pump.callOf_cases hc with ⟨_, hp, rfl⟩ | ⟨hp, rfl⟩ | ⟨hp, rfl⟩ | ⟨hp, rfl⟩ |
        ⟨hp, rfl⟩ <;> simp [hp, PumpPc.Holds]
  · intro o pc hi
    rcases hr : out.2.2 with p | r
    · rw [doSection_inl _ _ hr] at hi ⊢
      cases hi
      rcases hgo pc hr with ⟨_, _, h1⟩ | ⟨_, h1⟩ | ⟨_, _, h1⟩ <;>
        rcases d.pump.callOf_cases hc with ⟨_, hp, rfl⟩ | ⟨hp, rfl⟩ | ⟨hp, rfl⟩ | ⟨hp, rfl⟩ |
          ⟨hp, rfl⟩ <;> cases h1
      · exact .inl rfl
      · exact .inr (.inl rfl)
      · exact .inr (.inr rfl)
    · exact absurd hi (doSection_inr _ _ hr _ _)

/-- A later section of a call; the last one leaves the pump with its item, or restarts the
device. -/
theorem DevOk.resumes {o : SinkCall Cell} {pc : Pc Cell} {out : Out Cell}
    (hd : (system B).Reach d) (h : DevOk d) (hpc : d.pump.pc = .inSink o pc)
    (hs : Sect B o (some pc) d.sink out) : DevOk (d.doSection o [] out) := by
  have hcall := h.call o pc hpc
  rcases hr : out.2.2 with p | r
  · refine h.pumpFrame rfl rfl (by simp [doSection]) ?_ (fun o' pc' hi => ?_)
    · rw [doSection_inl _ _ hr, hpc]; exact Iff.rfl
    · rw [doSection_inl _ _ hr] at hi ⊢
      cases hi
      exact hcall
  · refine h.pumpFrame rfl rfl (by simp [doSection]) ?_
      (fun _ _ hi => absurd hi (doSection_inr _ _ hr _ _))
    have hpump : (d.doSection o [] out).pump = d.pump.after o (.inr r) := by
      simp only [doSection, hr]
    rw [hpc, hpump]
    by_cases hrs : r = .restart
    · -- Only an activate restarts, and it has no item.
      have hnw : ∀ e data, o.1 ≠ .write e data := by
        have hok := (sinkOk hd).place
        simp only [place, hpc] at hok
        subst hrs
        cases hs <;> simp_all [PlaceOk]
      subst hrs
      refine ⟨False.elim, fun hx => ?_⟩
      obtain ⟨e, data, hw⟩ := hx
      exact hnw e data hw
    · refine (d.pump.after_holds (fun pc' hx => by cases hx) (by simpa using hrs)).trans ?_
      simp only [PumpPc.Holds]
      rcases hcall with h1 | h1 | h1 <;> simp [h1]

/-- **Every step keeps the invariant.** -/
theorem DevOk.step (hd : (system B).Reach d) (h : DevOk d)
    (hst : (system B).step l d = some d') : DevOk d' := by
  cases step_act hst with
  | reply hn | sectorEnd hn | start hn | stop hn | otherCommand hn | subscribe hn | disconnect hn =>
    exact h.frame rfl rfl (by simp [hn]) (by simp [hn])
  | recvPass hn | recvRefuse hn | sendFull hn | startArm hn | startUnblock hn | flushDone hn
    | startInvalidate hn | stopDisarm hn =>
    exact h.frame rfl rfl (by simp [hn]) (by simp)
  | sendOk hn hs =>
    obtain ⟨-, -, hh⟩ := Ring.send_eq_some hs
    exact h.frame rfl hh (by simp [hn]) (by simp)
  | flushTake hn hr =>
    obtain ⟨hfree, -, hne, hh⟩ := Ring.receive_eq_some hr
    have hz : d.pump.data = [] := by
      by_contra hd
      rw [h.pump hd] at hfree
      cases hfree
    exact ⟨h.call, h.holds, fun hne => absurd hz hne,
      fun item hi => (NimblePc.startReturn.inj hi) ▸ ⟨hh, hne, hz⟩, fun _ hi => absurd rfl (hi _)⟩
  | flushReturn hn =>
    obtain ⟨-, -, hz⟩ := h.flush _ hn
    exact ⟨h.call, h.holds, fun hne => absurd hz hne, by rintro i ⟨⟩, fun _ _ => rfl⟩
  | take hpc hr =>
    obtain ⟨hfree, -, hne, hh⟩ := Ring.receive_eq_some hr
    refine ⟨by rintro o pc ⟨⟩, ⟨fun _ => trivial, fun _ => hne⟩, fun _ => hh,
      fun item hi => ?_, fun hz => absurd hz hne⟩
    rw [(h.flush item hi).1] at hfree
    cases hfree
  | emptyItem hpc hz => exact absurd hz (h.holds.mpr (by rw [hpc]; trivial))
  | timesOut hpc | timeoutAbort hpc | timeoutBack hpc | lazyOpen hpc | toWrite hpc | unarmed hpc
    | zero hpc | length hpc | zeroBlock hpc | failBlock hpc =>
    exact h.pumpFrame rfl rfl rfl (by rw [hpc]; exact Iff.rfl) (fun _ _ hi => by cases hi)
  | giveBack hpc | wroteFail hpc =>
    exact h.giveBack (by rw [hpc]; trivial) rfl rfl rfl id (fun _ _ hi => by cases hi)
  | wroteOk hpc =>
    refine h.giveBack (by rw [hpc]; trivial) rfl rfl rfl ?_ ?_
    · dsimp only
      split <;> exact id
    · dsimp only
      split <;> simp
  | calls hc _ hs => exact h.calls hc hs
  | sections hpc _ hs => exact h.resumes hd hpc hs

/-- The invariant holds in every reachable state. -/
theorem DevOk.reach (h : (system B).Reach d) : DevOk d :=
  h.invariant (I := DevOk) (fun _ hs => by cases hs; exact .init)
    (fun _ _ _ hd hi hst => hi.step hd hst)

/-- At `esp_ota_write` the pump writes its item to the handle of the sink. -/
theorem flash_item {o : SinkCall Cell} {e h : Nat} {data : List Cell} (hd : (system B).Reach d)
    (hpc : d.pump.pc = .inSink o (.writeFlash e h data)) :
    o.1 = .write d.pump.epoch (some d.pump.data) ∧ e = d.pump.epoch ∧ data = d.pump.data ∧
      h = d.sink.sink.handle ∧ d.sink.sink.epoch = e ∧ h ≤ d.sink.handles := by
  have hok := sinkOk hd
  have hpl := hok.place
  simp only [place, hpc, PlaceOk] at hpl
  obtain ⟨ho, hh, -, -, he⟩ := hpl
  rcases (DevOk.reach hd).call _ _ hpc with hc | hc | hc <;> rw [ho] at hc <;> cases hc
  exact ⟨ho, rfl, rfl, hh, he, hh ▸ hok.handle_le⟩

/-- The activate of the pump restarts. -/
theorem activate_restarts {o : SinkCall Cell} {rb : Bool} (hr : (system B).Reach d)
    (hpc : d.pump.pc = .inSink o (.activateClose rb)) : rb = true := by
  have hact := (sinkOk hr).place
  simp only [place, hpc, PlaceOk] at hact
  rcases (DevOk.reach hr).call _ _ hpc with h1 | h1 | h1 <;> rw [hact.1] at h1
  · cases h1
  · cases h1
  · exact (Op.activate.inj h1).2

theorem lazy_step (h : d.pump.pc.Lazy → d.pump.epoch = 0) (hst : (system B).step l d = some d') :
    d'.pump.pc.Lazy → d'.pump.epoch = 0 := by
  cases step_act hst with
  | lazyOpen _ _ he | unarmed _ _ he => exact fun _ => he
  | zero hpc | length hpc | zeroBlock hpc => exact fun _ => h (by rw [hpc]; trivial)
  | failBlock => exact fun _ => rfl
  | take | timesOut | timeoutAbort | timeoutBack | emptyItem | toWrite | giveBack | wroteFail =>
    exact False.elim
  | wroteOk =>
    intro hl
    dsimp only at hl
    split at hl <;> exact hl.elim
  | @calls n idf op out =>
    show (d.pump.after (op, idf) out.2.2).pc.Lazy → (d.pump.after (op, idf) out.2.2).epoch = 0
    exact Pump.after_lazy _ _ _
  | @sections n idf o pc out =>
    show (d.pump.after o out.2.2).pc.Lazy → (d.pump.after o out.2.2).epoch = 0
    exact Pump.after_lazy _ _ _
  | reply | sectorEnd | start | stop | otherCommand | subscribe | disconnect | recvPass | recvRefuse
    | sendOk | sendFull | startArm | startUnblock | flushTake | flushDone | flushReturn
    | startInvalidate | stopDisarm => exact h

/-- An item that the pump opens no session for, or not yet, has no epoch. -/
theorem lazy_epoch (h : (system B).Reach d) : d.pump.pc.Lazy → d.pump.epoch = 0 :=
  h.invariant (I := fun d => d.pump.pc.Lazy → d.pump.epoch = 0) (fun _ hs _ => by cases hs; rfl)
    (fun _ _ _ _ hi hst => lazy_step hi hst)

/-- Inside a Start callback the transport is armed. -/
theorem armed_inStart (h : (system B).Reach d) : d.nimble.InStart → d.armed = true := by
  refine h.invariant (I := fun d => d.nimble.InStart → d.armed = true)
    (fun _ hs => by cases hs; exact False.elim) (fun l d d' _ hi hst => ?_)
  cases step_act hst with
  | startArm => exact fun _ => rfl
  | startUnblock hn | flushTake hn | flushDone hn | flushReturn hn =>
    exact fun _ => hi (by rw [hn]; trivial)
  | sectorEnd | start | stop | recvPass | recvRefuse | sendOk | sendFull | startInvalidate
    | stopDisarm => exact False.elim
  | disconnect hn => exact fun hx => by simp [hn, NimblePc.InStart] at hx
  | _ => exact hi

/-- The declared length is a `uint32_t`. -/
theorem otaTotalLen_lt (h : (system B).Reach d) : d.comp.otaTotalLen < 2 ^ 32 := by
  refine h.invariant (I := fun d => d.comp.otaTotalLen < 2 ^ 32)
    (fun _ hs => by cases hs; decide) (fun l d d' _ hi hst => ?_)
  have hcmd : ∀ om malloc, (bleOtaStartWriteChr om malloc d.comp).1.otaTotalLen < 2 ^ 32 := by
    intro om malloc
    rcases bleOtaStartWriteChr_cases om malloc d.comp with ⟨-, n, _, hx, -⟩ | ⟨-, _, hx, -⟩ | hx <;>
      rw [hx]
    · exact Nat.mod_lt _ (by decide)
    · exact Nat.two_pow_pos 32
    · exact hi
  cases step_act hst with
  | @reply om frame err c hn ho | @sectorEnd om sector delivered frame c hn ho =>
    have hf := (recvFwWrite_frame om d.comp).1
    rw [ho] at hf
    exact hf ▸ hi
  | @start om malloc frame c hn ho | @stop om malloc frame c hn ho
    | @otherCommand om malloc c hn ho =>
    have := hcmd om malloc
    rw [ho] at this
    exact this
  | _ => exact hi

/-! ## The history -/

/-- The clock and the history (module doc). -/
structure HistoryOk (d : Device) : Prop where
  odd : d.clock % 2 = 1 ↔ d.nimble.InStart
  stamp : ∀ x ∈ d.log, x.1 ≤ d.clock
  queue : ∀ c ∈ d.ring.queue, c.born ≤ d.clock
  item : ∀ c ∈ d.pump.data, c.born ≤ d.clock
  flush : ∀ item, d.nimble = .startReturn item → ∀ c ∈ item, c.born ≤ d.clock
  logged : ∀ x ∈ d.log, ∀ c ∈ x.2.cells, c.born ≤ d.clock

theorem mem_emit {x : Nat × DevEv} {es : List DevEv} :
    x ∈ (d.emit es).log ↔ x ∈ d.log ∨ x.1 = d.clock ∧ x.2 ∈ es := by
  obtain ⟨k, e⟩ := x
  simp only [emit_log, List.mem_append, List.mem_map, Prod.mk.injEq]
  constructor
  · rintro (h | ⟨e', h, rfl, rfl⟩)
    · exact .inl h
    · exact .inr ⟨rfl, h⟩
  · rintro (h | ⟨rfl, h⟩)
    · exact .inl h
    · exact .inr ⟨e, h, rfl, rfl⟩

theorem mem_emit_sink {k : Nat} {e : SinkEntry Cell} {es : List DevEv} (h : .sink e ∉ es)
    (hm : (k, .sink e) ∈ (d.emit es).log) : (k, .sink e) ∈ d.log :=
  (mem_emit.mp hm).resolve_right fun hx => h hx.2

theorem sink_not_mem_notified {c : OtaChar} {frame sector : List UInt8} {e : SinkEntry Cell} :
    .sink e ∉ d.notified c frame sector := by
  intro h
  obtain ⟨f, -, hf⟩ := List.mem_map.mp h
  cases hf

/-- The events of a section in the history. -/
theorem mem_doSection {k : Nat} {e : Ev Cell} {o : SinkCall Cell} {es : List (SinkEntry Cell)}
    {out : Out Cell} (hes : ∀ ev, .ev ev ∉ es) :
    (k, .sink (.ev e)) ∈ (d.doSection o es out).log ↔
      (k, .sink (.ev e)) ∈ d.log ∨ k = d.clock ∧ e ∈ out.2.1 := by
  have hret : .ev e ∉ Lib.Code.returned o out.2.2 := by
    unfold Lib.Code.returned
    split <;> simp
  have hlog : (d.doSection o es out).log =
      (d.emit ((es ++ sectionEntries o out).map .sink)).log := rfl
  rw [hlog, mem_emit]
  simp [sectionEntries, hes e, hret]

/-- Every write of the history is on a handle that was made. -/
theorem device_written_le (h : (system B).Reach d) {k hd : Nat} {data : List Cell} {err : EspErr}
    (hm : (k, .sink (.ev (.otaWrite hd data err))) ∈ d.log) : hd ≤ d.sink.handles :=
  written_le (view_reach h) (List.mem_filterMap.mpr ⟨_, hm, rfl⟩)

/-- A new entry has the present clock, and is about no newer bytes. -/
def NewEntry (d : Device) (x : Nat × DevEv) : Prop :=
  x.1 = d.clock ∧ ∀ c ∈ x.2.cells, c.born ≤ d.clock

/-- A step at the same clock. -/
theorem HistoryOk.keep (h : HistoryOk d) (hl : ∀ x ∈ d'.log, x ∈ d.log ∨ NewEntry d x)
    (hc : d'.clock = d.clock) (hn : d'.nimble.InStart ↔ d.nimble.InStart)
    (hq : ∀ c ∈ d'.ring.queue, c.born ≤ d.clock) (hi : ∀ c ∈ d'.pump.data, c.born ≤ d.clock)
    (hf : ∀ item, d'.nimble = .startReturn item → ∀ c ∈ item, c.born ≤ d.clock) :
    HistoryOk d' where
  odd := by rw [hc, hn]; exact h.odd
  stamp x hx := by
    rw [hc]
    rcases hl x hx with hx | hx
    · exact h.stamp x hx
    · exact Nat.le_of_eq hx.1
  queue := hc ▸ hq
  item := hc ▸ hi
  flush := hc ▸ hf
  logged x hx := by
    rw [hc]
    rcases hl x hx with hx | hx
    · exact h.logged x hx
    · exact hx.2

/-- A step that moves the clock keeps the bytes. -/
theorem HistoryOk.tick (h : HistoryOk d) (hl : ∀ x ∈ d'.log, x ∈ d.log ∨ NewEntry d x)
    (hc : d'.clock = d.clock + 1) (hn : d'.nimble.InStart ↔ ¬d.nimble.InStart)
    (hq : d'.ring = d.ring) (hp : d'.pump = d.pump) (hf : ∀ item, d'.nimble ≠ .startReturn item) :
    HistoryOk d' where
  odd := by rw [hc, hn, ← h.odd]; omega
  stamp x hx := by
    rcases hl x hx with hx | ⟨hx, -⟩
    · have := h.stamp x hx; omega
    · omega
  queue c hm := by have := h.queue c (hq ▸ hm); omega
  item c hm := by have := h.item c (hp ▸ hm); omega
  flush item hi := absurd hi (hf item)
  logged x hx c hm := by
    rcases hl x hx with hx | hx
    · have := h.logged x hx c hm; omega
    · have := hx.2 c hm; omega

/-- The entries of a step, if each of them is about no newer bytes. -/
theorem newEntry_emit {es : List DevEv} (he : ∀ e ∈ es, ∀ c ∈ e.cells, c.born ≤ d.clock) :
    ∀ x ∈ (d.emit es).log, x ∈ d.log ∨ NewEntry d x := by
  intro x hx
  rcases mem_emit.mp hx with hx | ⟨hk, hx⟩
  · exact .inl hx
  · exact .inr ⟨hk, he _ hx⟩

theorem cells_notified {c : OtaChar} {frame sector : List UInt8} {e : DevEv}
    (he : e ∈ d.notified c frame sector) : e.cells = [] := by
  obtain ⟨f, -, rfl⟩ := List.mem_map.mp he
  rfl

theorem newEntry_notified {c : OtaChar} {frame sector : List UInt8} {e₁ : DevEv}
    (h₁ : ∀ c ∈ e₁.cells, c.born ≤ d.clock) :
    ∀ x ∈ (d.emit (e₁ :: d.notified c frame sector)).log, x ∈ d.log ∨ NewEntry d x := by
  refine newEntry_emit fun e he b hb => ?_
  rcases List.mem_cons.mp he with rfl | he
  · exact h₁ b hb
  · rw [cells_notified he] at hb
    cases hb

/-- The entries of a section of the sink are about the item of the pump. -/
theorem newEntry_section {o : SinkCall Cell} {p : Option (Pc Cell)} {es : List (SinkEntry Cell)}
    {out : Out Cell} (hd : (system B).Reach d) (h : HistoryOk d)
    (hes : ∀ ev, .ev ev ∉ es) (hs : Sect B o p d.sink out)
    (hp : ∀ pc, p = some pc → d.pump.pc = .inSink o pc) :
    ∀ x ∈ (d.doSection o es out).log, x ∈ d.log ∨ NewEntry d x := by
  refine newEntry_emit fun e he c hc => ?_
  obtain ⟨e, hm, rfl⟩ := List.mem_map.mp he
  rcases List.mem_append.mp hm with hm | hm
  · cases e with
    | ev ev => exact absurd hm (hes ev)
    | call | ret | poke => cases hc
  rcases List.mem_append.mp hm with hm | hm
  · obtain ⟨ev, hev, rfl⟩ := List.mem_map.mp hm
    cases ev with
    | otaWrite hh data err =>
      obtain ⟨⟨e, hpc⟩, -, -⟩ := hs.otaWrite hev
      obtain ⟨-, -, rfl, -⟩ := flash_item hd (hp _ hpc)
      exact h.item c hc
    | _ => cases hc
  · unfold Lib.Code.returned at hm
    split at hm
    · cases hm
    · cases List.mem_singleton.mp hm
      cases hc

/-- **Every step keeps the history in order.** -/
theorem HistoryOk.step (hd : (system B).Reach d) (h : HistoryOk d)
    (hst : (system B).step l d = some d') : HistoryOk d' := by
  have hnone : ∀ c ∈ ([] : List Cell), c.born ≤ d.clock := by simp
  cases step_act hst with
  | @reply om frame err c hn ho =>
    refine h.keep (newEntry_emit fun e he b hb => ?_) rfl Iff.rfl h.queue h.item h.flush
    obtain ⟨f, -, he⟩ := List.mem_flatMap.mp he
    rw [cells_notified he] at hb
    cases hb
  | start hn | stop hn =>
    refine h.keep (newEntry_emit fun e he b hb => ?_) rfl (by rw [hn]; exact Iff.rfl) h.queue
      h.item (by rintro i ⟨⟩)
    rw [cells_notified he] at hb
    cases hb
  | otherCommand | subscribe | disconnect =>
    exact h.keep (fun _ => .inl) rfl Iff.rfl h.queue h.item h.flush
  | sectorEnd hn | recvPass hn | startUnblock hn | flushDone hn | stopDisarm hn =>
    exact h.keep (fun _ => .inl) rfl (by rw [hn]; exact Iff.rfl) h.queue h.item (by rintro i ⟨⟩)
  | recvRefuse hn | sendFull hn =>
    exact h.keep (newEntry_notified hnone) rfl (by rw [hn]; exact Iff.rfl) h.queue h.item
      (by rintro i ⟨⟩)
  | @sendOk n sector delivered frame ring hn hs =>
    have hnew : ∀ c ∈ d.cells delivered, c.born ≤ d.clock := by simp [cells]
    obtain ⟨-, hq, -⟩ := Ring.send_eq_some hs
    refine h.keep (newEntry_notified hnew) rfl (by rw [hn]; exact Iff.rfl) (fun c hc => ?_) h.item
      (by rintro i ⟨⟩)
    rcases List.mem_append.mp (hq ▸ hc) with hc | hc
    · exact h.queue c hc
    · exact hnew c hc
  | startArm hn =>
    exact h.tick (fun _ => .inl) rfl (by simp [hn, NimblePc.InStart]) rfl rfl (by rintro i ⟨⟩)
  | startInvalidate hn =>
    exact h.tick (newEntry_emit (by simp [DevEv.cells])) rfl (by simp [hn, NimblePc.InStart]) rfl
      rfl (by rintro i ⟨⟩)
  | flushTake hn hr =>
    obtain ⟨-, hq, -, -⟩ := Ring.receive_eq_some hr
    refine h.keep (fun _ => .inl) rfl (by rw [hn]; exact Iff.rfl)
      (fun c hc => h.queue c (hq ▸ List.mem_append_right _ hc)) h.item ?_
    rintro i ⟨⟩ c hc
    exact h.queue c (hq ▸ List.mem_append_left _ hc)
  | flushReturn hn =>
    exact h.keep (newEntry_emit (by simpa [DevEv.cells] using h.flush _ hn)) rfl
      (by rw [hn]; exact Iff.rfl) h.queue h.item (by rintro i ⟨⟩)
  | take hpc hr =>
    obtain ⟨-, hq, -, -⟩ := Ring.receive_eq_some hr
    exact h.keep (fun _ => .inl) rfl Iff.rfl
      (fun c hc => h.queue c (hq ▸ List.mem_append_right _ hc))
      (fun c hc => h.queue c (hq ▸ List.mem_append_left _ hc)) h.flush
  | timesOut | timeoutAbort | timeoutBack | emptyItem | lazyOpen | toWrite | unarmed | zero | length
    | zeroBlock | failBlock =>
    exact h.keep (fun _ => .inl) rfl Iff.rfl h.queue h.item h.flush
  | wroteOk => exact h.keep (fun _ => .inl) rfl Iff.rfl h.queue hnone h.flush
  | giveBack | wroteFail =>
    exact h.keep (newEntry_emit (by simpa [DevEv.cells] using h.item)) rfl Iff.rfl h.queue hnone
      h.flush
  | calls _ _ hs =>
    exact h.keep (newEntry_section hd h (by simp) hs (fun _ hp => by cases hp)) rfl Iff.rfl h.queue
      (by simpa [doSection] using h.item) h.flush
  | sections hpc _ hs =>
    exact h.keep (newEntry_section hd h (by simp) hs (fun _ hp => by cases hp; exact hpc)) rfl
      Iff.rfl h.queue (by simpa [doSection] using h.item) h.flush

theorem HistoryOk.reach (h : (system B).Reach d) : HistoryOk d := by
  refine h.invariant (I := HistoryOk) (fun _ hs => ?_) (fun _ _ _ hd hi hst => hi.step hd hst)
  cases hs
  exact ⟨by simp [Device.init, NimblePc.InStart], by simp [Device.init], by simp [Device.init],
    by simp [Device.init], by rintro i ⟨⟩, by simp [Device.init]⟩

end Device

end BleOta
