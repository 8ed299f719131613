import BleOta.Device.Invariant
import BleOta.Sink.Boot

/-!
# A transfer after a Start

The run from the end of a Start callback, without another Start. `k` is the clock of that time and
`L` the declared length. The bytes that the ring takes are the ones that the pump writes, in order,
into one session: what is written, the item and the ring make up what was accepted. The pump goes
through these phases:

* `Old`: it still ends an earlier session, or has an old item, or waits without a session;
* `Fresh`: it has the first new item and opens a session for it;
* `Opened`: it writes to the new session;
* `Full`: the session has all `L` bytes; finish and activate follow.

`Transfer.step`: every step that meets the conditions (`Given`, `StopCond`) keeps that;
`Transfer.start`: it holds at the end of a Start callback that meets `CleanStart`.
-/

namespace BleOta

open Lib (Ring)

/-- The bytes that the ring takes. -/
def DevEv.accepts : DevEv → List Cell
  | .accepted data => data
  | _ => []

/-- The pump keeps its epoch until the next item: it waits for one, or comes to that without a
further test. -/
def Pump.Lingers (p : Pump) : Prop :=
  p.epoch ≠ 0 ∧ match p.pc with
  | .receive | .timeout => True
  | .wrote err => (err = .ok ∨ err = .nvs) ∧
      ¬(0 < p.fwLen ∧ p.fwLen ≤ u32 (p.bytesPumped + u32 p.data.length))
  | _ => False

/-- The NimBLE host task is not in the Start callback, nor before it. -/
def NimblePc.Later : NimblePc → Prop
  | .idle | .recvCheck .. | .recvSend .. | .stopDisarm => True
  | _ => False

namespace Device

/-- The bytes that the ring has taken at the clock `k`. -/
def acceptedAt (k : Nat) (log : List (Nat × DevEv)) : List Cell :=
  log.flatMap fun x => if x.1 = k then x.2.accepts else []

/-- The bytes that the handle `h` has received. -/
def writtenOn (h : Nat) (log : List (Nat × DevEv)) : List Cell :=
  flashed h (Lib.Code.events (sinkLog log))

/-- Before the end of a Start callback: the ring is empty, the pump has no item with which it may
still open a session, and it does not keep the epoch of an earlier session; the epochs have not
wrapped. -/
structure CleanStart (d : Device) : Prop where
  ring : d.ring.queue = []
  item : ¬d.pump.MayOpen
  epoch : ¬d.pump.Lingers
  next : d.sink.sink.nextEpoch ≠ 0

/-- The pump has read the declared length for the new session. -/
def PastRead (d : Device) : Prop :=
  (∃ n, d.pump.pc = .opening n) ∨ d.pump.pc = .halted ∨
    (d.pump.epoch ≠ 0 ∧ d.sink.sink.sessionLive = true)

/-- The pump has tested the flag `s_armed` for the new session. -/
def PastArmed (d : Device) : Prop := d.pump.pc = .readLen ∨ d.PastRead

/-- What is given about a step of a transfer of `L` bytes that starts at the clock `k`: no other
Start; a Stop or a disconnect only after `L` bytes; the ring does not overflow; the IDF does not
fail (at the end of the image and at the boot partition only if `strict`). -/
def Given (strict : Prop) (k L : Nat) (d : Device) : DevLabel → Prop
  | .ble (.command om _) => ¬IsStart om ∧ (IsStop om → (acceptedAt k d.log).length = L)
  | .ble .disconnect => (acceptedAt k d.log).length = L
  | .ble _ => True
  | .nimble _ => ∀ sector delivered frame, d.nimble = .recvSend sector delivered frame →
      d.ring.used + delivered.length ≤ ringbufSize ∧
      (acceptedAt k d.log).length + delivered.length ≤ L
  | .pump _ idf => idf.begin = espOk ∧ idf.write = espOk ∧
      (strict → idf.end = espOk ∧ idf.setBoot = espOk)

/-- The condition for a Stop or a disconnect: where the Stop clears the length, the pump has read
it; where `s_armed` is cleared, the pump has tested it for the new session and is not between a
timeout and its next test. -/
def StopCond (d : Device) : DevLabel → Prop
  | .ble (.command om _) => IsStop om → d.PastRead
  | .ble .disconnect => d.PastArmed ∧ d.pump.pc ≠ .timeout
  | .nimble _ => d.nimble = .stopDisarm → d.PastArmed ∧ d.pump.pc ≠ .timeout
  | _ => True

/-! ## The phases -/

/-- Bytes of the clock `k` are written on the handle `h` only. -/
def OnlyOn (k h : Nat) (log : List (Nat × DevEv)) : Prop :=
  ∀ kw h' data err, (kw, .sink (.ev (.otaWrite h' data err))) ∈ log → h' ≠ h →
    ∀ c ∈ data, c.born ≠ k

/-- The log has the open of a session of `L` bytes with the handle `h` and the epoch `e`, and then
the calls `ops`. -/
def Traced (L h e : Nat) (ops : List (Op Cell)) (log : List (SinkEntry Cell)) : Prop :=
  ∃ t i, ∃ cs : List (SinkCall Cell), cs.map (·.1) = ops ∧
    (.ev (.otaBegin t L h espOk) ::
      .ret (.sessionOpen (some ⟨L, false⟩), i) (.ret .ok (some e)) :: cs.map .call).Sublist log

/-- Before the first new item. -/
structure Old (k L : Nat) (d : Device) : Prop where
  acc : acceptedAt k d.log = d.ring.queue
  item : ∀ c ∈ d.pump.data, c.born ≠ k
  dead : d.sink.sink.sessionLive = false
  next : d.sink.sink.nextEpoch ≠ 0
  only : OnlyOn k (d.sink.handles + 1) d.log
  mayOpen : ¬d.pump.MayOpen
  lingers : ¬d.pump.Lingers
  flags : d.pump.pc = .halted ∨ (d.armed = true ∧ d.comp.otaTotalLen = L)

/-- The places and the flags with the first new item. -/
def FreshAt (k L : Nat) (d : Device) : PumpPc → Prop
  | .arrived => d.armed = true ∧ d.comp.otaTotalLen = L
  | .readLen => (d.armed = true ∨ (acceptedAt k d.log).length = L) ∧ d.comp.otaTotalLen = L
  | .opening n => (d.armed = true ∨ (acceptedAt k d.log).length = L) ∧ n = L
  | _ => False

/-- Before the open for the first new item. -/
structure Fresh (k L : Nat) (d : Device) : Prop where
  acc : acceptedAt k d.log = d.pump.data ++ d.ring.queue
  epoch : d.pump.epoch = 0
  dead : d.sink.sink.sessionLive = false
  next : d.sink.sink.nextEpoch ≠ 0
  only : OnlyOn k (d.sink.handles + 1) d.log
  at_ : FreshAt k L d d.pump.pc

/-- All accepted bytes but the item and the ring are written; the item is not. -/
def Pending (k h : Nat) (d : Device) : Prop :=
  acceptedAt k d.log = writtenOn h d.log ++ d.pump.data ++ d.ring.queue ∧
    d.pump.bytesPumped = (writtenOn h d.log).length

/-- All accepted bytes but the ring are written; the item is, and not yet counted. -/
def Flashed (k h : Nat) (d : Device) : Prop :=
  acceptedAt k d.log = writtenOn h d.log ++ d.ring.queue ∧
    d.pump.bytesPumped + d.pump.data.length = (writtenOn h d.log).length

/-- The bytes at the places of the pump with the open session. -/
def OpenedAt (k L h : Nat) (d : Device) : PumpPc → Prop
  | .receive => Pending k h d ∧ (writtenOn h d.log).length < L
  | .timeout => Pending k h d ∧ (writtenOn h d.log).length < L ∧ d.armed = true
  | .arrived | .writing => Pending k h d
  | .inSink o (.writeFlash _ _ _) => Pending k h d ∧ o.2.write = espOk
  | .inSink _ (.writeAccount _ _) => Flashed k h d
  | .wrote err => Flashed k h d ∧ (err = .ok ∨ err = .nvs)
  | _ => False

/-- The session with the handle `h` and the epoch `e` is the one of the pump, and live. -/
structure Current (h e : Nat) (d : Device) : Prop where
  epoch : d.pump.epoch = e
  live : d.sink.sink.sessionLive = true
  same : d.sink.sink.epoch = e

/-- The new session is written. -/
structure Opened (k L h e : Nat) (d : Device) : Prop where
  current : Current h e d
  nonzero : e ≠ 0
  fwLen : d.pump.fwLen = L
  writing : d.sink.sink.state = .writing
  handle : d.sink.sink.handle = h
  begun : ∃ t, (k, .sink (.ev (.otaBegin t L h espOk))) ∈ d.log
  trace : Traced L h e [] (sinkLog d.log)
  only : OnlyOn k h d.log
  armed : d.armed = true ∨ (acceptedAt k d.log).length = L
  at_ : OpenedAt k L h d d.pump.pc

/-- The places of the pump with all bytes written, and the calls that it has made. -/
def FullAt (strict : Prop) (L h e : Nat) (d : Device) : PumpPc → Prop
  | .finishing => Current h e d ∧ d.sink.sink.state = .writing ∧ Traced L h e [] (sinkLog d.log)
  | .inSink o (.finishEnd _) => Current h e d ∧ (strict → o.2.end = espOk) ∧ o.1 = .finish e ∧
      Traced L h e [.finish e] (sinkLog d.log)
  | .inSink o (.finishLock _ ier) => Current h e d ∧ (strict → ier = espOk) ∧ o.1 = .finish e ∧
      Traced L h e [.finish e] (sinkLog d.log)
  | .activating => Current h e d ∧ d.sink.sink.state = .validated ∧
      Traced L h e [.finish e] (sinkLog d.log)
  | .inSink o (.activateBoot _ _) => (strict → o.2.setBoot = espOk) ∧ o.1 = .activate e true ∧
      Traced L h e [.finish e, .activate e true] (sinkLog d.log)
  | .inSink o (.activateClear _) | .inSink o (.activateClose _) => o.1 = .activate e true ∧
      Traced L h e [.finish e, .activate e true] (sinkLog d.log)
  | .inSink o (.activateUndo _) => ¬strict ∧ o.1 = .activate e true
  | .halted => Traced L h e [.finish e, .activate e true] (sinkLog d.log)
  | .receive | .timeout => ¬strict ∧ d.pump.epoch = 0
  | _ => False

/-- All bytes are written. -/
structure Full (strict : Prop) (k L h e : Nat) (d : Device) : Prop where
  acc : acceptedAt k d.log = writtenOn h d.log
  len : (acceptedAt k d.log).length = L
  queue : d.ring.queue = []
  item : d.pump.data = []
  begun : ∃ t, (k, .sink (.ev (.otaBegin t L h espOk))) ∈ d.log
  only : OnlyOn k h d.log
  at_ : FullAt strict L h e d d.pump.pc

/-- The phase of the pump. -/
inductive Phase (strict : Prop) (k L : Nat) (d : Device) : Prop
  | old : Old k L d → Phase strict k L d
  | fresh : Fresh k L d → Phase strict k L d
  | opened (h e : Nat) : Opened k L h e d → Phase strict k L d
  | full (h e : Nat) : Full strict k L h e d → Phase strict k L d

/-- The invariant of a transfer (module doc). -/
structure Transfer (strict : Prop) (k L : Nat) (d : Device) : Prop where
  clock : d.clock = k
  nimble : d.nimble.Later
  total : (acceptedAt k d.log).length ≤ L
  stop : d.nimble = .stopDisarm → (acceptedAt k d.log).length = L
  kept : ∀ kd data, (kd, .dropped data) ∈ d.log → ∀ c ∈ data, c.born ≠ k
  phase : Phase strict k L d

variable {B : Board} {d d' : Device} {l : DevLabel} {strict : Prop} {k L h e : Nat}

/-! ## The bytes of a history -/

theorem acceptedAt_append (l l' : List (Nat × DevEv)) :
    acceptedAt k (l ++ l') = acceptedAt k l ++ acceptedAt k l' := List.flatMap_append

theorem acceptedAt_emit (es : List DevEv) : acceptedAt k (d.emit es).log =
    acceptedAt k d.log ++ if d.clock = k then es.flatMap DevEv.accepts else [] := by
  rw [emit_log, acceptedAt_append]
  by_cases hk : d.clock = k <;> simp [acceptedAt, List.flatMap_map, hk]

@[simp] theorem accepts_notified (c : OtaChar) (frame sector : List UInt8) :
    (d.notified c frame sector).flatMap DevEv.accepts = [] := by
  refine List.flatMap_eq_nil_iff.mpr fun x hx => ?_
  obtain ⟨f, -, rfl⟩ := List.mem_map.mp hx
  rfl

@[simp] theorem accepts_sinks (es : List (SinkEntry Cell)) :
    (es.map DevEv.sink).flatMap DevEv.accepts = [] := by
  refine List.flatMap_eq_nil_iff.mpr fun x hx => ?_
  obtain ⟨e, -, rfl⟩ := List.mem_map.mp hx
  rfl

theorem acceptedAt_section (o : SinkCall Cell) (es : List (SinkEntry Cell)) (out : Out Cell) :
    acceptedAt k (d.doSection o es out).log = acceptedAt k d.log := by
  show acceptedAt k (d.emit ((es ++ sectionEntries o out).map .sink)).log = _
  rw [acceptedAt_emit, accepts_sinks]
  simp

theorem writtenOn_section {o : SinkCall Cell} {es : List (SinkEntry Cell)} {out : Out Cell}
    (hes : Lib.Code.events es = []) :
    writtenOn h (d.doSection o es out).log = writtenOn h d.log ++ flashed h out.2.1 := by
  simp [writtenOn, sinkLog_section, hes, sectionEntries]

/-- A handle that is not made yet has received nothing. -/
theorem writtenOn_new (hr : (system B).Reach d) : writtenOn (d.sink.handles + 1) d.log = [] := by
  refine List.flatMap_eq_nil_iff.mpr fun ev hev => ?_
  obtain ⟨x, hx, he⟩ := List.mem_filterMap.mp hev
  cases x with
  | ev ev' =>
    cases he
    cases ev with
    | otaWrite h data err =>
      have := written_le (view_reach hr) hx
      have hne : h ≠ d.sink.handles + 1 := by
        have hle : h ≤ d.sink.handles := this
        omega
      simp [flashedBy, hne]
    | _ => rfl
  | _ => cases he

theorem Traced.append {ops : List (Op Cell)} {log new : List (SinkEntry Cell)}
    (ht : Traced L h e ops log) : Traced L h e ops (log ++ new) := by
  obtain ⟨t, i, cs, hc, hs⟩ := ht
  exact ⟨t, i, cs, hc, hs.trans (List.sublist_append_left _ _)⟩

theorem Traced.call {ops : List (Op Cell)} {log new : List (SinkEntry Cell)} {op : Op Cell}
    {idf : Idf} (ht : Traced L h e ops log) :
    Traced L h e (ops ++ [op]) (log ++ (.call (op, idf) :: new)) := by
  obtain ⟨t, i, cs, rfl, hs⟩ := ht
  refine ⟨t, i, cs ++ [(op, idf)], by simp, ?_⟩
  have h2 : ([.call (op, idf)] : List (SinkEntry Cell)).Sublist (.call (op, idf) :: new) :=
    List.Sublist.cons_cons _ (List.nil_sublist _)
  simpa using hs.append h2

/-! ## Steps of the NimBLE side -/

/-- The pump, the sink and its history stay as they are. -/
structure SameSink (d d' : Device) : Prop where
  pump : d'.pump = d.pump
  sink : d'.sink = d.sink
  log : sinkLog d'.log = sinkLog d.log
  mem : ∀ k ev, (k, .sink ev) ∈ d'.log → (k, .sink ev) ∈ d.log
  old : ∀ k ev, (k, .sink ev) ∈ d.log → (k, .sink ev) ∈ d'.log

theorem SameSink.of_emit {es : List DevEv} (hp : d'.pump = d.pump) (hs : d'.sink = d.sink)
    (hl : d'.log = (d.emit es).log) (hn : ∀ ev, .sink ev ∉ es) : SameSink d d' where
  pump := hp
  sink := hs
  log := by
    have : es.filterMap sinkEntry = [] := by
      refine List.filterMap_eq_nil_iff.mpr fun x hx => ?_
      cases x with
      | sink ev => exact absurd hx (hn ev)
      | _ => rfl
    rw [hl, sinkLog_emit, this, List.append_nil]
  mem k ev hm := mem_emit_sink (hn ev) (hl ▸ hm)
  old k ev hm := hl ▸ mem_emit.mpr (.inl hm)

theorem SameSink.of_log (hp : d'.pump = d.pump) (hs : d'.sink = d.sink) (hl : d'.log = d.log) :
    SameSink d d' := ⟨hp, hs, by rw [hl], by simp [hl], by simp [hl]⟩

theorem SameSink.writtenOn (hs : SameSink d d') (h : Nat) :
    writtenOn h d'.log = writtenOn h d.log := by
  unfold Device.writtenOn
  rw [hs.log]

theorem SameSink.onlyOn (hs : SameSink d d') (ho : OnlyOn k h d.log) : OnlyOn k h d'.log :=
  fun kw h' data err hm => ho kw h' data err (hs.mem _ _ hm)

theorem SameSink.current (hs : SameSink d d') (hc : Current h e d) : Current h e d' :=
  ⟨hs.pump ▸ hc.epoch, hs.sink ▸ hc.live, hs.sink ▸ hc.same⟩

section

variable {new : List Cell}

/-- Before the first new item the pump has made no test for the new session, or it has stopped. -/
theorem Old.frame (ho : Old k L d) (hs : SameSink d d')
    (hq : d'.ring.queue = d.ring.queue ++ new)
    (ha : acceptedAt k d'.log = acceptedAt k d.log ++ new)
    (hlen : d'.comp.otaTotalLen = d.comp.otaTotalLen ∨ d.PastRead)
    (harm : d'.armed = d.armed ∨ d.PastArmed) : Old k L d' := by
  have hread : d.PastRead → d.pump.pc = .halted := by
    rintro (⟨n, hpc⟩ | hpc | ⟨-, hl⟩)
    · exact absurd (show d.pump.MayOpen by rw [Pump.MayOpen, hpc]; trivial) ho.mayOpen
    · exact hpc
    · rw [ho.dead] at hl; cases hl
  have harmed : d.PastArmed → d.pump.pc = .halted := by
    rintro (hpc | hr)
    · exact absurd (show d.pump.MayOpen by rw [Pump.MayOpen, hpc]; trivial) ho.mayOpen
    · exact hread hr
  refine ⟨by rw [ha, hq, ho.acc], hs.pump ▸ ho.item, hs.sink ▸ ho.dead, hs.sink ▸ ho.next, ?_,
    hs.pump ▸ ho.mayOpen, hs.pump ▸ ho.lingers, ?_⟩
  · rw [hs.sink]
    exact hs.onlyOn ho.only
  · rw [hs.pump]
    rcases ho.flags with hpc | ⟨h1, h2⟩
    · exact .inl hpc
    rcases harm with he | hx
    · rcases hlen with he' | hx
      · exact .inr ⟨he.trans h1, he'.trans h2⟩
      · exact .inl (hread hx)
    · exact .inl (harmed hx)

/-- With the first new item the flags count at the places where the pump has not tested them. -/
theorem Fresh.frame (hf : Fresh k L d) (hs : SameSink d d')
    (hq : d'.ring.queue = d.ring.queue ++ new)
    (ha : acceptedAt k d'.log = acceptedAt k d.log ++ new)
    (hlen : d'.comp.otaTotalLen = d.comp.otaTotalLen ∨ d.PastRead)
    (harm : d'.armed = d.armed ∨ d.PastArmed)
    (harm' : d.armed = true ∨ (acceptedAt k d.log).length = L →
      d'.armed = true ∨ (acceptedAt k d'.log).length = L) : Fresh k L d' := by
  have hread : d.PastRead → ∃ n, d.pump.pc = .opening n := by
    rintro (hpc | hpc | ⟨hne, -⟩)
    · exact hpc
    · have := hf.at_; rw [hpc] at this; exact this.elim
    · exact absurd hf.epoch hne
  refine ⟨by rw [ha, hq, hf.acc, hs.pump, List.append_assoc], hs.pump ▸ hf.epoch,
    hs.sink ▸ hf.dead, hs.sink ▸ hf.next, by rw [hs.sink]; exact hs.onlyOn hf.only, ?_⟩
  have hat := hf.at_
  rw [hs.pump]
  generalize hpc : d.pump.pc = pc at hat
  cases pc with
  | arrived =>
    have hnr : ¬d.PastRead := fun hx => by obtain ⟨n, hn⟩ := hread hx; rw [hpc] at hn; cases hn
    have hna : ¬d.PastArmed := by
      rintro (hx | hx)
      · rw [hpc] at hx; cases hx
      · exact hnr hx
    exact ⟨(harm.resolve_right hna).trans hat.1, (hlen.resolve_right hnr).trans hat.2⟩
  | readLen =>
    have hnr : ¬d.PastRead := fun hx => by obtain ⟨n, hn⟩ := hread hx; rw [hpc] at hn; cases hn
    exact ⟨harm' hat.1, (hlen.resolve_right hnr).trans hat.2⟩
  | opening n => exact ⟨harm' hat.1, hat.2⟩
  | _ => exact hat.elim

/-- With the open session the flags count only after a timeout. -/
theorem Opened.frame (ho : Opened k L h e d) (hs : SameSink d d')
    (hq : d'.ring.queue = d.ring.queue ++ new)
    (ha : acceptedAt k d'.log = acceptedAt k d.log ++ new)
    (harm : d'.armed = d.armed ∨ d.pump.pc ≠ .timeout)
    (harm' : d.armed = true ∨ (acceptedAt k d.log).length = L →
      d'.armed = true ∨ (acceptedAt k d'.log).length = L) : Opened k L h e d' := by
  have hw := hs.writtenOn h
  have hpend : Pending k h d → Pending k h d' := by
    rintro ⟨h1, h2⟩
    exact ⟨by rw [ha, hq, h1, hw, hs.pump]; simp, by rw [hw, hs.pump, h2]⟩
  have hflash : Flashed k h d → Flashed k h d' := by
    rintro ⟨h1, h2⟩
    exact ⟨by rw [ha, hq, h1, hw]; simp, by rw [hw, hs.pump, h2]⟩
  refine ⟨hs.current ho.current, ho.nonzero, hs.pump ▸ ho.fwLen, hs.sink ▸ ho.writing,
    hs.sink ▸ ho.handle, ho.begun.imp fun _ => hs.old _ _, hs.log ▸ ho.trace, hs.onlyOn ho.only,
    harm' ho.armed, ?_⟩
  have hat := ho.at_
  rw [hs.pump]
  generalize hpc : d.pump.pc = pc at hat
  cases pc with
  | receive => exact ⟨hpend hat.1, hw ▸ hat.2⟩
  | timeout =>
    refine ⟨hpend hat.1, hw ▸ hat.2.1, ?_⟩
    rcases harm with he | hx
    · exact he.trans hat.2.2
    · exact absurd hpc hx
  | arrived | writing => exact hpend hat
  | wrote err => exact ⟨hflash hat.1, hat.2⟩
  | inSink o pc =>
    cases pc with
    | writeFlash => exact ⟨hpend hat.1, hat.2⟩
    | writeAccount => exact hflash hat
    | _ => exact hat.elim
  | _ => exact hat.elim

/-- With all bytes written nothing more is accepted. -/
theorem Full.frame (hf : Full strict k L h e d) (hs : SameSink d d')
    (hq : d'.ring.queue = d.ring.queue ++ new)
    (ha : acceptedAt k d'.log = acceptedAt k d.log ++ new)
    (htot : (acceptedAt k d'.log).length ≤ L) : Full strict k L h e d' := by
  have hnil : new = [] := by
    rw [ha, List.length_append, hf.len] at htot
    exact List.length_eq_zero_iff.mp (by omega)
  subst hnil
  rw [List.append_nil] at ha hq
  refine ⟨by rw [ha, hs.writtenOn]; exact hf.acc, by rw [ha]; exact hf.len, hq.trans hf.queue,
    hs.pump ▸ hf.item, hf.begun.imp fun _ => hs.old _ _, hs.onlyOn hf.only, ?_⟩
  have hat := hf.at_
  rw [hs.pump]
  generalize hpc : d.pump.pc = pc at hat
  cases pc with
  | finishing | activating => exact ⟨hs.current hat.1, hs.sink ▸ hat.2.1, hs.log ▸ hat.2.2⟩
  | receive | timeout => exact ⟨hat.1, hs.pump ▸ hat.2⟩
  | halted =>
    show Traced _ _ _ _ _
    rw [hs.log]
    exact hat
  | inSink o pc =>
    cases pc with
    | finishEnd | finishLock => exact ⟨hs.current hat.1, hat.2.1, hat.2.2.1, hs.log ▸ hat.2.2.2⟩
    | activateBoot => exact ⟨hat.1, hat.2.1, hs.log ▸ hat.2.2⟩
    | activateClear | activateClose => exact ⟨hat.1, hs.log ▸ hat.2⟩
    | activateUndo => exact hat
    | _ => exact hat.elim
  | _ => exact hat.elim

/-- A step of the NimBLE side puts `new` into the ring, and may clear the declared length or
`s_armed` where the pump is past its tests. -/
theorem Phase.frame (hph : Phase strict k L d) (hs : SameSink d d')
    (hq : d'.ring.queue = d.ring.queue ++ new)
    (ha : acceptedAt k d'.log = acceptedAt k d.log ++ new)
    (htot : (acceptedAt k d'.log).length ≤ L)
    (hlen : d'.comp.otaTotalLen = d.comp.otaTotalLen ∨ d.PastRead)
    (harm : d'.armed = d.armed ∨
      ((acceptedAt k d.log).length = L ∧ d.PastArmed ∧ d.pump.pc ≠ .timeout)) :
    Phase strict k L d' := by
  have harm' : d.armed = true ∨ (acceptedAt k d.log).length = L →
      d'.armed = true ∨ (acceptedAt k d'.log).length = L := by
    have hmono : (acceptedAt k d.log).length = L → (acceptedAt k d'.log).length = L := by
      intro h
      rw [ha, List.length_append] at htot ⊢
      omega
    intro h
    rcases harm with he | ⟨hL, -⟩
    · rw [he]
      exact h.imp_right hmono
    · exact .inr (hmono hL)
  cases hph with
  | old ho => exact .old (ho.frame hs hq ha hlen (harm.imp_right (·.2.1)))
  | fresh hf => exact .fresh (hf.frame hs hq ha hlen (harm.imp_right (·.2.1)) harm')
  | opened h e ho => exact .opened h e (ho.frame hs hq ha (harm.imp_right (·.2.2)) harm')
  | full h e hf => exact .full h e (hf.frame hs hq ha htot)

end

/-! ## The end of an earlier session -/

/-- A section of an earlier session, which is not live any more. -/
theorem Old.section {o : SinkCall Cell} {p : Option (Pc Cell)} {es : List (SinkEntry Cell)}
    {out : Out Cell} (h : Old k L d) (hr : (system B).Reach d) (hes : ∀ ev, .ev ev ∉ es)
    (hs : Sect B o p d.sink out) (hpl : d.place = placeAt o p)
    (hp : ∀ pc, p = some pc → d.pump.pc = .inSink o pc)
    (hop : p = none → ∀ cfg, o.1 ≠ .sessionOpen cfg) : Old k L (d.doSection o es out) := by
  have hok : SinkOk (placeAt o p) d.sink := hpl ▸ sinkOk hr
  obtain ⟨hnext, hhandles⟩ := hs.not_open hop
  have hnopen : ∀ cfg, o.1 ≠ .sessionOpen cfg := by
    intro cfg ho
    cases p with
    | none => exact hop rfl cfg ho
    | some pc => rcases (DevOk.reach hr).call o pc (hp pc rfl) with h1 | h1 | h1 <;> simp [h1] at ho
  have hwrite : (∃ e data, o.1 = .write e data) → ∀ pc, p = some pc → ∃ e h data n,
      pc = .writeFlash e h data ∨ pc = .writeAccount e n := by
    rintro ⟨e, data, ho⟩ pc rfl
    have hpl := hok.place
    cases pc with
    | writeFlash e h data => exact ⟨e, h, data, 0, .inl rfl⟩
    | writeAccount e n => exact ⟨e, 0, [], n, .inr rfl⟩
    | _ => simp [placeAt, PlaceOk, ho] at hpl
  have hnot : ¬(d.pump.after o out.2.2).pc.BeforeOpen := d.pump.after_beforeOpen o out.2.2
  refine ⟨(acceptedAt_section o es out).trans h.acc, by simpa [doSection] using h.item, ?_,
    hnext ▸ h.next, ?_, fun hm => hnot hm.beforeOpen, ?_, ?_⟩
  · show out.1.sink.sessionLive = false
    rcases hs.live hok with hl | ⟨hn, ⟨cfg, ho⟩, -⟩ | ⟨-, hl, -⟩ | ⟨hd, ier, rfl, hi⟩ | ⟨rb, rfl, -⟩
    · exact hl.trans h.dead
    · exact absurd ho (hop hn cfg)
    · rw [h.dead] at hl; cases hl
    · cases hs with
      | endFailed => rfl
      | validated => exact h.dead
    · cases hs with
      | closed => rfl
  · intro kw h' data err hm hne c hc
    rcases (mem_doSection hes).mp hm with hm | ⟨-, hm⟩
    · exact h.only kw h' data err hm (by rwa [← hhandles]) c hc
    · obtain ⟨⟨e, hn⟩, -, -⟩ := hs.otaWrite hm
      obtain ⟨-, -, rfl, -⟩ := flash_item hr (hp _ hn)
      exact h.item c hc
  · show ¬(d.pump.after o out.2.2).Lingers
    rintro ⟨hne, hl⟩
    rcases hr' : out.2.2 with pc | ⟨err, e⟩ | _
    · rw [hr'] at hl; exact hl
    · rw [hr'] at hl hne
      obtain ⟨op, idf⟩ := o
      cases op with
      | sessionOpen cfg => exact hnopen cfg rfl
      | write e' data =>
        obtain ⟨h1, h2⟩ := hs.dead_write h.dead ⟨_, _, rfl⟩ (hwrite ⟨_, _, rfl⟩) hr'
        rcases hl.1 with h3 | h3
        · exact h1 h3
        · exact h2 h3
      | finish =>
        by_cases he : err = .ok
        · simp [Pump.after, he] at hl
        · simp [Pump.after, he, Pump.reset] at hne
      | activate | sessionAbort => exact hne rfl
    · rw [hr'] at hl; exact hl
  · show (d.pump.after o out.2.2).pc = .halted ∨ _
    rcases h.flags with hx | hx
    · cases p with
      | none => simp [place, hx, placeAt] at hpl
      | some pc => rw [hp pc rfl] at hx; cases hx
    · exact .inr hx

/-- **The pump in the phase `Old`** stays there, or takes the first new item. -/
theorem Old.step {n : Nat} {idf : Idf} (h : Old k L d) (hr : (system B).Reach d)
    (hst : (system B).step (.pump n idf) d = some d') : Phase strict k L d' := by
  have hdev := DevOk.reach hr
  have hflags : d.pump.pc ≠ .halted → d.armed = true ∧ d.comp.otaTotalLen = L :=
    fun hx => h.flags.resolve_left hx
  have hwait : d.pump.pc = .receive ∨ d.pump.pc = .timeout → d.pump.epoch = 0 := by
    intro hpc
    by_contra hne
    rcases hpc with hpc | hpc <;> exact h.lingers ⟨hne, by rw [hpc]; trivial⟩
  -- A step outside of the sink without entries.
  have hquiet : ∀ {p : Pump} {ring : Ring Cell ringbufSize} {b : Bool},
      ring.queue = d.ring.queue → (∀ c ∈ p.data, c ∈ d.pump.data) → ¬p.MayOpen → ¬p.Lingers →
      d.pump.pc ≠ .halted →
      Phase strict k L { d with ring := ring, openBlocked := b, pump := p } :=
    fun hq hi hm hl hpc => .old ⟨hq ▸ h.acc, fun c hc => h.item c (hi c hc), h.dead, h.next, h.only,
      hm, hl, .inr (hflags hpc)⟩
  -- The pump drops its item, which is old.
  have hdrop : ∀ {p : Pump}, p.data = [] → ¬p.MayOpen → ¬p.Lingers → d.pump.pc ≠ .halted →
      Phase strict k L
      { d.emit [.dropped d.pump.data] with ring := d.ring.giveBack, pump := p } := by
    intro p hp hm hl hpc
    refine .old ⟨?_, by simp [hp], h.dead, h.next, fun kw h' data err hx =>
      h.only kw h' data err (mem_emit_sink (by simp) hx), hm, hl, .inr (hflags hpc)⟩
    show acceptedAt k (d.emit [.dropped d.pump.data]).log = d.ring.queue
    rw [acceptedAt_emit, h.acc]
    simp [DevEv.accepts]
  cases step_act hst with
  | take hpc hrc =>
    obtain ⟨-, hq, -, -⟩ := Ring.receive_eq_some hrc
    exact .fresh ⟨h.acc.trans hq, hwait (.inl hpc), h.dead, h.next, h.only,
      hflags (by simp [hpc])⟩
  | timesOut hpc =>
    exact hquiet rfl (fun _ => id) id (fun hx => hx.1 (hwait (.inl hpc))) (by simp [hpc])
  | timeoutAbort hpc hne => exact absurd (hwait (.inr hpc)) hne
  | timeoutBack hpc =>
    exact hquiet rfl (fun _ => id) id (fun hx => hx.1 (hwait (.inr hpc))) (by simp [hpc])
  | emptyItem hpc hz => exact absurd hz (hdev.holds.mpr (by rw [hpc]; trivial))
  | lazyOpen hpc hne he | unarmed hpc hne he =>
    exact absurd (show d.pump.MayOpen by rw [Pump.MayOpen, hpc]; exact he) h.mayOpen
  | zero hpc | length hpc =>
    exact absurd (show d.pump.MayOpen by rw [Pump.MayOpen, hpc]; trivial) h.mayOpen
  | toWrite hpc | zeroBlock hpc | failBlock hpc =>
    exact hquiet rfl (fun _ => id) id (fun hx => hx.2) (by simp [hpc])
  | giveBack hpc =>
    have he : d.pump.epoch = 0 := lazy_epoch hr (by rw [hpc]; trivial)
    exact hdrop rfl id (fun hx => hx.1 he) (by simp [hpc])
  | wroteFail hpc => exact hdrop rfl id (fun hx => hx.2) (by simp [hpc])
  | wroteOk hpc hok =>
    by_cases hfull : 0 < d.pump.fwLen ∧
        d.pump.fwLen ≤ u32 (d.pump.bytesPumped + u32 d.pump.data.length)
    · rw [if_pos hfull]
      exact hquiet rfl (by simp) id (fun hx => hx.2) (by simp [hpc])
    · rw [if_neg hfull]
      exact hquiet rfl (by simp) id (fun hx => h.lingers ⟨hx.1, by rw [hpc]; exact ⟨hok, hfull⟩⟩)
        (by simp [hpc])
  | @calls n idf op out hcall ho hs =>
    refine .old (h.section hr (by simp) hs (place_of_callOf hcall) (fun _ hx => by cases hx)
      fun _ cfg hop => ?_)
    rcases d.pump.callOf_cases hcall with ⟨_, hpc, rfl⟩ | ⟨-, rfl⟩ | ⟨-, rfl⟩ | ⟨-, rfl⟩ |
      ⟨-, rfl⟩
    · exact h.mayOpen (by rw [Pump.MayOpen, hpc]; trivial)
    all_goals cases hop
  | sections hpc ho hs =>
    exact .old (h.section hr (by simp) hs (by simp only [place, hpc]; rfl)
      (fun _ hx => by cases hx; exact hpc) (fun hx => by cases hx))

/-! ## The open of the session -/

/-- The open succeeds: no session is live, the length fits and the IDF does not refuse. -/
theorem Fresh.opens {idf : Idf} {t : Partition} {out : Out Cell} (h : Fresh k L d)
    (hr : (system B).Reach d) (hk : d.clock = k)
    (harm : d.armed = true ∨ (acceptedAt k d.log).length = L) (hL : 0 < L)
    (ht : B.running.bind B.nextUpdate = some t) (hfit : L ≤ t.size) (hb : idf.begin = espOk)
    (hpc : d.pump.pc = .opening L)
    (ho : otaSinkEnter B (.sessionOpen (some ⟨L, false⟩)) idf d.sink = out) :
    Opened k L (d.sink.handles + 1) d.sink.sink.nextEpoch
      (d.doSection (.sessionOpen (some ⟨L, false⟩), idf)
        [.call (.sessionOpen (some ⟨L, false⟩), idf)] out) := by
  have hok : SinkOk (α := Cell) .idle d.sink := by
    have := sinkOk hr
    simpa only [place, hpc] using this
  have hdead : (settleAbort d.sink.sink).1.sessionLive = false := hok.settle_live.trans h.dead
  have hnext := settleAbort_nextEpoch d.sink.sink
  rw [enter_open ⟨L, false⟩ (by show L ≠ 0; omega) hdead ht hfit hb] at ho
  have hev : out.2.1 = settleEvents d.sink.sink ++ [.otaBegin t L (d.sink.handles + 1) espOk,
      .fire (.sessionStart ⟨(settleAbort d.sink.sink).1.nextEpoch, t.label, L, 0, 0, false⟩)] := by
    rw [← ho]
  have hres : out.2.2 = .inr (.ret .ok (some d.sink.sink.nextEpoch)) := by rw [← ho, hnext]
  have hsink : out.1 = ⟨registerSession t L (d.sink.handles + 1) (settleAbort d.sink.sink).1,
      d.sink.handles + 1⟩ := by rw [← ho]
  have hpump : (d.doSection (.sessionOpen (some ⟨L, false⟩), idf)
      [.call (.sessionOpen (some ⟨L, false⟩), idf)] out).pump =
      { d.pump with epoch := d.sink.sink.nextEpoch, fwLen := L, bytesPumped := 0,
                    pc := .writing } := by
    have := h.next
    simp [doSection, hres, Pump.after, this]
  have hw : writtenOn (d.sink.handles + 1) (d.doSection (.sessionOpen (some ⟨L, false⟩), idf)
      [.call (.sessionOpen (some ⟨L, false⟩), idf)] out).log = [] := by
    rw [writtenOn_section rfl, writtenOn_new hr, hev]
    simp [settleAbort_flashed, flashedBy]
  refine ⟨⟨by rw [hpump], ?_, ?_⟩, h.next, by rw [hpump], ?_, ?_, ⟨t, ?_⟩, ⟨t, idf, [], rfl, ?_⟩,
    ?_, ?_, ?_⟩
  · show out.1.sink.sessionLive = true
    rw [hsink]
    rfl
  · show out.1.sink.epoch = d.sink.sink.nextEpoch
    rw [hsink]
    exact hnext
  · show out.1.sink.state = .writing
    rw [hsink]
    rfl
  · show out.1.sink.handle = d.sink.handles + 1
    rw [hsink]
    rfl
  · exact (mem_doSection (by simp)).mpr (.inr ⟨hk.symm, by simp [hev]⟩)
  · rw [sinkLog_section, sectionEntries, hev, hres]
    refine List.Sublist.trans ?_ (List.sublist_append_right _ _)
    simp only [List.map_append, List.map_cons, List.map_nil, List.append_assoc]
    refine List.Sublist.trans ?_ (List.sublist_append_right _ _)
    refine List.Sublist.trans ?_ (List.sublist_append_right _ _)
    refine List.Sublist.cons_cons _ (List.Sublist.cons _ ?_)
    exact List.Sublist.refl _
  · intro kw h' data err hm hne
    rcases (mem_doSection (by simp)).mp hm with hm | ⟨-, hm⟩
    · exact h.only kw h' data err hm hne
    · rw [hev] at hm
      rcases List.mem_append.mp hm with hm | hm
      · exact absurd (settleEvents_mem hm) (by simp)
      · simp at hm
  · rw [acceptedAt_section]
    exact harm
  · rw [hpump]
    refine ⟨?_, ?_⟩
    · rw [acceptedAt_section, hw, hpump]
      exact h.acc
    · rw [hw, hpump]
      rfl

/-- **The pump in the phase `Fresh`** opens the session for its item. -/
theorem Fresh.step {n : Nat} {idf : Idf} {t : Partition} (h : Fresh k L d)
    (hr : (system B).Reach d) (hk : d.clock = k) (hL : 0 < L)
    (ht : B.running.bind B.nextUpdate = some t) (hfit : L ≤ t.size) (hb : idf.begin = espOk)
    (hst : (system B).step (.pump n idf) d = some d') : Phase strict k L d' := by
  have hdev := DevOk.reach hr
  have hat := h.at_
  have hne : d.pump.data ≠ [] := by
    refine hdev.holds.mpr ?_
    generalize d.pump.pc = pc at hat
    cases pc <;> trivial
  cases step_act hst with
  | lazyOpen hpc _ _ ha =>
    rw [hpc] at hat
    exact .fresh ⟨h.acc, h.epoch, h.dead, h.next, h.only, .inl hat.1, hat.2⟩
  | length hpc hl =>
    rw [hpc] at hat
    exact .fresh ⟨h.acc, h.epoch, h.dead, h.next, h.only, hat.1, hat.2⟩
  | emptyItem hpc hz => exact absurd hz hne
  | toWrite hpc _ he => exact absurd h.epoch he
  | unarmed hpc _ _ ha =>
    rw [hpc] at hat
    rw [hat.1] at ha
    cases ha
  | zero hpc hz =>
    rw [hpc] at hat
    have := hat.2
    omega
  | @calls n idf op out hcall ho hs =>
    rcases d.pump.callOf_cases hcall with ⟨m, hpc, rfl⟩ | ⟨hpc, rfl⟩ | ⟨hpc, rfl⟩ | ⟨hpc, rfl⟩ |
      ⟨hpc, rfl⟩ <;> rw [hpc] at hat
    · obtain ⟨harm, rfl⟩ := hat
      exact .opened _ _ (h.opens hr hk harm hL ht hfit hb hpc ho)
    all_goals exact hat.elim
  | take hpc | timesOut hpc | timeoutAbort hpc | timeoutBack hpc | zeroBlock hpc | failBlock hpc
    | giveBack hpc | wroteFail hpc | wroteOk hpc | sections hpc =>
    rw [hpc] at hat
    exact hat.elim

/-! ## The writes -/

/-- A section of a write to the session. -/
theorem Opened.section {o : SinkCall Cell} {es : List (SinkEntry Cell)} {out : Out Cell}
    (ho : Opened k L h e d) (hes : ∀ ev, .ev ev ∉ es)
    (hsink : out.1.sink.sessionLive = true ∧ out.1.sink.epoch = d.sink.sink.epoch ∧
      out.1.sink.state = .writing ∧ out.1.sink.handle = d.sink.sink.handle)
    (hwrote : ∀ h' data err, .otaWrite h' data err ∈ out.2.1 → h' = h)
    (hp : (d.pump.after o out.2.2).epoch = d.pump.epoch ∧
      (d.pump.after o out.2.2).fwLen = d.pump.fwLen)
    (hat : OpenedAt k L h (d.doSection o es out) (d.pump.after o out.2.2).pc) :
    Opened k L h e (d.doSection o es out) := by
  obtain ⟨hl, he, hst, hh⟩ := hsink
  refine ⟨⟨hp.1.trans ho.current.epoch, hl, he.trans ho.current.same⟩, ho.nonzero,
    hp.2.trans ho.fwLen, hst, hh.trans ho.handle, ?_, ?_, fun kw h' data err hm hne => ?_, ?_, hat⟩
  · obtain ⟨t, hb⟩ := ho.begun
    exact ⟨t, (mem_doSection hes).mpr (.inl hb)⟩
  · rw [sinkLog_section]
    exact ho.trace.append
  · rcases (mem_doSection hes).mp hm with hm | ⟨-, hm⟩
    · exact ho.only kw h' data err hm hne
    · exact absurd (hwrote _ _ _ hm) hne
  · rw [acceptedAt_section]
    exact ho.armed

/-- The write of the item to the flash. -/
theorem Opened.flash {o : SinkCall Cell} {e' h' : Nat} {data : List Cell} {out : Out Cell}
    (ho : Opened k L h e d) (hr : (system B).Reach d)
    (hpc : d.pump.pc = .inSink o (.writeFlash e' h' data))
    (hs : Sect B o (some (.writeFlash e' h' data)) d.sink out) :
    Opened k L h e (d.doSection o [] out) := by
  have hat := ho.at_
  rw [hpc] at hat
  obtain ⟨⟨h1, h2⟩, hok⟩ := hat
  obtain ⟨hw, rfl, rfl, rfl, -, -⟩ := flash_item hr hpc
  cases hs with
  | flashFails hx => exact absurd hok hx
  | flashed =>
    refine ho.section (by simp) ⟨ho.current.live, rfl, ho.writing, rfl⟩ ?_ ⟨rfl, rfl⟩ ?_
    · intro h'' data' err hm
      simp at hm
      exact hm.1.trans ho.handle
    · have hwr : writtenOn h (d.doSection o [] (d.sink, [.otaWrite d.sink.sink.handle d.pump.data
          espOk], .inl (.writeAccount d.pump.epoch d.pump.data.length))).log =
          writtenOn h d.log ++ d.pump.data := by
        rw [writtenOn_section rfl]
        simp [flashedBy, ho.handle]
      refine ⟨?_, ?_⟩
      · rw [acceptedAt_section, hwr]
        exact h1
      · rw [hwr, List.length_append, ← h2]
        rfl

/-- The account of a write. -/
theorem Opened.account {o : SinkCall Cell} {e' len : Nat} {out : Out Cell}
    (ho : Opened k L h e d) (hr : (system B).Reach d)
    (hpc : d.pump.pc = .inSink o (.writeAccount e' len))
    (hs : Sect B o (some (.writeAccount e' len)) d.sink out) :
    Opened k L h e (d.doSection o [] out) := by
  have hat := ho.at_
  rw [hpc] at hat
  have hpl := (sinkOk hr).place
  simp only [place, hpc, PlaceOk] at hpl
  obtain ⟨⟨data, hw, -⟩, -, -, he⟩ := hpl
  cases hs with
  | staleAfter hx => exact absurd ho.writing (hx ho.current.live he.symm)
  | @accounts _ _ s es err cnt prog _ _ _ hes herr =>
    obtain ⟨op, idf⟩ := o
    simp only at hw
    subst hw
    refine ho.section (by simp) ⟨ho.current.live, rfl, ho.writing, rfl⟩ ?_ ⟨rfl, rfl⟩ ?_
    · intro h' data' err' hm
      exact (hes _ hm).elim
    · refine ⟨⟨?_, ?_⟩, herr⟩
      · rw [acceptedAt_section, writtenOn_section rfl, flashed_progress h hes, List.append_nil]
        exact hat.1
      · rw [writtenOn_section rfl, flashed_progress h hes, List.append_nil]
        exact hat.2

/-- The return of a written item: with the last one the session is full. -/
theorem Opened.counted {ring : Ring Cell ringbufSize} (ho : Opened k L h e d) (hL0 : 0 < L)
    (hL : L < 2 ^ 32) (htot : (acceptedAt k d.log).length ≤ L) (hf : Flashed k h d)
    (hq : ring.queue = d.ring.queue) :
    Phase strict k L { d with
      ring := ring
      pump := { d.pump with
        bytesPumped := u32 (d.pump.bytesPumped + u32 d.pump.data.length), data := []
        pc := if 0 < d.pump.fwLen ∧
            d.pump.fwLen ≤ u32 (d.pump.bytesPumped + u32 d.pump.data.length)
          then .finishing else .receive } } := by
  obtain ⟨h1, h2⟩ := hf
  have hlen : (acceptedAt k d.log).length = (writtenOn h d.log).length + d.ring.queue.length := by
    rw [h1, List.length_append]
  have hcount : u32 (d.pump.bytesPumped + u32 d.pump.data.length) = (writtenOn h d.log).length := by
    simp only [u32]
    rw [Nat.mod_eq_of_lt (a := d.pump.data.length) (by omega), h2, Nat.mod_eq_of_lt (by omega)]
  rw [hcount, ho.fwLen]
  by_cases hfull : L ≤ (writtenOn h d.log).length
  · have hz : d.ring.queue = [] := List.length_eq_zero_iff.mp (by omega)
    rw [if_pos ⟨hL0, hfull⟩]
    refine .full h e ⟨?_, ?_, hq.trans hz, rfl, ho.begun, ho.only,
      ⟨⟨ho.current.epoch, ho.current.live, ho.current.same⟩, ho.writing, ho.trace⟩⟩
    · show acceptedAt k d.log = writtenOn h d.log
      rw [h1, hz, List.append_nil]
    · show (acceptedAt k d.log).length = L
      omega
  · rw [if_neg (fun hx => hfull hx.2)]
    refine .opened h e ⟨⟨ho.current.epoch, ho.current.live, ho.current.same⟩, ho.nonzero, ho.fwLen,
      ho.writing, ho.handle, ho.begun, ho.trace, ho.only, ho.armed, ⟨?_, rfl⟩,
      Nat.lt_of_not_le hfull⟩
    show acceptedAt k d.log = writtenOn h d.log ++ [] ++ ring.queue
    rw [h1, hq, List.append_nil]

/-- **The pump in the phase `Opened`** writes its item to the session. -/
theorem Opened.step {n : Nat} {idf : Idf} (ho : Opened k L h e d) (hr : (system B).Reach d)
    (hL0 : 0 < L) (hL : L < 2 ^ 32) (htot : (acceptedAt k d.log).length ≤ L) (hn : d.nimble.Later)
    (hwr : idf.write = espOk) (hst : (system B).step (.pump n idf) d = some d') :
    Phase strict k L d' := by
  have hdev := DevOk.reach hr
  have hat := ho.at_
  have hne : d.pump.epoch ≠ 0 := ho.current.epoch ▸ ho.nonzero
  have hnoitem : ¬d.pump.pc.Holds → d.pump.data = [] := fun hx => by_contra fun hd =>
    hx (hdev.holds.mp hd)
  -- A step outside of the sink.
  have hquiet : ∀ {p : Pump} {ring : Ring Cell ringbufSize}, p.epoch = d.pump.epoch →
      p.fwLen = d.pump.fwLen → OpenedAt k L h { d with ring := ring, pump := p } p.pc →
      Phase strict k L { d with ring := ring, pump := p } :=
    fun h1 h2 h3 => .opened h e ⟨⟨h1.trans ho.current.epoch, ho.current.live, ho.current.same⟩,
      ho.nonzero, h2.trans ho.fwLen, ho.writing, ho.handle, ho.begun, ho.trace, ho.only, ho.armed,
      h3⟩
  cases step_act hst with
  | take hpc hrc =>
    rw [hpc] at hat
    obtain ⟨-, hq, -, -⟩ := Ring.receive_eq_some hrc
    refine hquiet rfl rfl ⟨?_, hat.1.2⟩
    have := hat.1.1
    rw [hnoitem (by rw [hpc]; exact id), hq] at this
    simpa [writtenOn] using this
  | timesOut hpc hrc =>
    rw [hpc] at hat
    refine hquiet rfl rfl ⟨hat.1, hat.2, ?_⟩
    -- With all bytes accepted the ring is not empty, and the pump would have got an item.
    by_contra ha
    have hz := hnoitem (by rw [hpc]; exact id)
    have hlen := congrArg List.length hat.1.1
    have hlt := hat.2
    rw [ho.armed.resolve_left ha, hz] at hlen
    have hfree := hdev.free hz (fun item hx => by rw [hx] at hn; exact hn)
    rcases Ring.receive_eq_none hrc with hx | hx
    · exact hx hfree
    · rw [hx] at hlen
      simp at hlen
      omega
  | timeoutAbort hpc _ ha =>
    rw [hpc] at hat
    rw [hat.2.2] at ha
    cases ha
  | timeoutBack hpc =>
    rw [hpc] at hat
    exact hquiet rfl rfl ⟨hat.1, hat.2.1⟩
  | emptyItem hpc hz => exact absurd hz (hdev.holds.mpr (by rw [hpc]; trivial))
  | lazyOpen _ _ hz | unarmed _ _ hz => exact absurd hz hne
  | toWrite hpc =>
    rw [hpc] at hat
    exact hquiet rfl rfl hat
  | wroteOk hpc =>
    rw [hpc] at hat
    exact ho.counted hL0 hL htot hat.1 rfl
  | wroteFail hpc h1 h2 =>
    rw [hpc] at hat
    rcases hat.2 with hx | hx
    · exact absurd hx h1
    · exact absurd hx h2
  | @calls n idf op out hcall hent hs =>
    rcases d.pump.callOf_cases hcall with ⟨m, hpc, rfl⟩ | ⟨hpc, rfl⟩ | ⟨hpc, rfl⟩ | ⟨hpc, rfl⟩ |
      ⟨hpc, rfl⟩ <;> rw [hpc] at hat
    · exact hat.elim
    · have hd : d.pump.data ≠ [] := hdev.holds.mpr (by rw [hpc]; trivial)
      rw [enter_write idf hd ho.current.live (ho.current.epoch.trans ho.current.same.symm)
        ho.writing] at hent
      subst hent
      refine .opened h e (ho.section (by simp) ⟨ho.current.live, rfl, ho.writing, rfl⟩ (by simp)
        ⟨rfl, rfl⟩ ⟨⟨?_, ?_⟩, hwr⟩)
      · rw [acceptedAt_section, writtenOn_section rfl]
        simp only [flashed_nil, List.append_nil]
        exact hat.1
      · rw [writtenOn_section rfl]
        simp only [flashed_nil, List.append_nil]
        exact hat.2
    all_goals exact hat.elim
  | @sections n idf o pc out hpc _ hs =>
    rw [hpc] at hat
    cases pc with
    | writeFlash => exact .opened h e (ho.flash hr hpc hs)
    | writeAccount => exact .opened h e (ho.account hr hpc hs)
    | _ => exact hat.elim
  | zero hpc | length hpc | zeroBlock hpc | failBlock hpc | giveBack hpc =>
    rw [hpc] at hat
    exact hat.elim

/-! ## The end of the image -/

/-- A section of the finish or the activate. -/
theorem Full.section {o : SinkCall Cell} {es : List (SinkEntry Cell)} {out : Out Cell}
    (hf : Full strict k L h e d) (hes : ∀ ev, .ev ev ∉ es) (hev : Lib.Code.events es = [])
    (hw : ∀ h' data err, .otaWrite h' data err ∉ out.2.1)
    (hat : FullAt strict L h e (d.doSection o es out) (d.pump.after o out.2.2).pc) :
    Full strict k L h e (d.doSection o es out) := by
  have hnone : flashed h out.2.1 = [] := by
    refine List.flatMap_eq_nil_iff.mpr fun ev hm => ?_
    cases ev with
    | otaWrite h' data err => exact absurd hm (hw h' data err)
    | _ => rfl
  refine ⟨?_, ?_, hf.queue, by simpa [doSection] using hf.item, ?_,
    fun kw h' data err hm => ?_, hat⟩
  · rw [acceptedAt_section, writtenOn_section hev, hnone, List.append_nil]
    exact hf.acc
  · rw [acceptedAt_section]
    exact hf.len
  · obtain ⟨t, hb⟩ := hf.begun
    exact ⟨t, (mem_doSection hes).mpr (.inl hb)⟩
  · rcases (mem_doSection hes).mp hm with hm | ⟨-, hm⟩
    · exact hf.only kw h' data err hm
    · exact absurd hm (hw h' data err)

/-- A later section of the finish or the activate. -/
theorem Full.resume {o : SinkCall Cell} {pc : Pc Cell} {out : Out Cell}
    (hf : Full strict k L h e d) (hr : (system B).Reach d) (hpc : d.pump.pc = .inSink o pc)
    (hs : Sect B o (some pc) d.sink out) : Full strict k L h e (d.doSection o [] out) := by
  have hat := hf.at_
  rw [hpc] at hat
  obtain ⟨op, idf⟩ := o
  have htrace : ∀ {ops}, Traced L h e ops (sinkLog d.log) →
      Traced L h e ops (sinkLog (d.doSection (op, idf) [] out).log) := by
    intro ops ht
    rw [sinkLog_section]
    exact ht.append
  cases hs with
  | flashFails | flashed | staleAfter | accounts => exact hat.elim
  | ended =>
    obtain ⟨hc, hend, ho, ht⟩ := hat
    exact hf.section (by simp) rfl (by simp)
      ⟨⟨hc.epoch, hc.live, hc.same⟩, hend, ho, htrace ht⟩
  | endFailed hi =>
    obtain ⟨hc, hier, ho, ht⟩ := hat
    simp only at ho
    subst ho
    exact hf.section (by simp) rfl (by simp [sinkFireError]) ⟨fun hx => hi (hier hx), rfl⟩
  | validated =>
    obtain ⟨hc, hier, ho, ht⟩ := hat
    simp only at ho
    subst ho
    exact hf.section (by simp) rfl (by simp) ⟨⟨hc.epoch, hc.live, hc.same⟩, rfl, htrace ht⟩
  | bootFailed hb =>
    obtain ⟨hboot, ho, ht⟩ := hat
    exact hf.section (by simp) rfl (by simp) ⟨fun hx => hb (hboot hx), ho⟩
  | booted =>
    obtain ⟨hboot, ho, ht⟩ := hat
    exact hf.section (by simp) rfl (by simp) ⟨ho, htrace ht⟩
  | undone =>
    obtain ⟨hns, ho⟩ := hat
    simp only at ho
    subst ho
    exact hf.section (by simp) rfl (by simp [sinkFireError]) ⟨hns, rfl⟩
  | cleared =>
    obtain ⟨ho, ht⟩ := hat
    exact hf.section (by simp) rfl (by simp) ⟨ho, htrace ht⟩
  | closed =>
    obtain ⟨ho, ht⟩ := hat
    cases activate_restarts hr hpc
    exact hf.section (by simp) rfl (by simp) (htrace ht)

/-- **The pump in the phase `Full`** calls finish and then activate. -/
theorem Full.step {n : Nat} {idf : Idf} (hf : Full strict k L h e d) (hr : (system B).Reach d)
    (hidf : strict → idf.end = espOk ∧ idf.setBoot = espOk)
    (hst : (system B).step (.pump n idf) d = some d') : Full strict k L h e d' := by
  have hat := hf.at_
  -- The pump waits after a failure.
  have hquiet : ∀ {p : Pump}, p.data = d.pump.data → FullAt strict L h e { d with pump := p } p.pc →
      Full strict k L h e { d with pump := p } :=
    fun h1 h2 => ⟨hf.acc, hf.len, hf.queue, h1.trans hf.item, hf.begun, hf.only, h2⟩
  cases step_act hst with
  | take hpc hrc =>
    obtain ⟨-, hq, hne, -⟩ := Ring.receive_eq_some hrc
    rw [hf.queue] at hq
    exact absurd (List.append_eq_nil_iff.mp hq.symm).1 hne
  | timesOut hpc =>
    rw [hpc] at hat
    exact hquiet rfl hat
  | timeoutAbort hpc hne =>
    rw [hpc] at hat
    exact absurd hat.2 hne
  | timeoutBack hpc =>
    rw [hpc] at hat
    exact hquiet rfl hat
  | @calls n idf op out hcall hent hs =>
    rcases d.pump.callOf_cases hcall with ⟨m, hpc, rfl⟩ | ⟨hpc, rfl⟩ | ⟨hpc, rfl⟩ | ⟨hpc, rfl⟩ |
      ⟨hpc, rfl⟩ <;> rw [hpc] at hat
    · exact hat.elim
    · exact hat.elim
    · obtain ⟨hc, hw, ht⟩ := hat
      rw [enter_finish idf hc.live (hc.epoch.trans hc.same.symm) hw] at hent
      subst hent
      refine hf.section (by simp) rfl (by simp)
        ⟨⟨hc.epoch, hc.live, hc.same⟩, fun hx => (hidf hx).1, by rw [hc.epoch], ?_⟩
      rw [sinkLog_section, hc.epoch]
      exact ht.call
    · obtain ⟨hc, hv, ht⟩ := hat
      rw [enter_activate idf hc.live (hc.epoch.trans hc.same.symm) hv] at hent
      subst hent
      refine hf.section (by simp) rfl (by simp) ⟨fun hx => (hidf hx).2, by rw [hc.epoch], ?_⟩
      rw [sinkLog_section, hc.epoch]
      exact ht.call
    · exact hat.elim
  | sections hpc _ hs => exact hf.resume hr hpc hs
  | emptyItem hpc | lazyOpen hpc | toWrite hpc | unarmed hpc | zero hpc | length hpc | zeroBlock hpc
    | failBlock hpc | giveBack hpc | wroteOk hpc | wroteFail hpc =>
    rw [hpc] at hat
    exact hat.elim

/-! ## The whole transfer -/

/-- A step of the NimBLE side. -/
theorem Transfer.frame {new : List Cell} (ht : Transfer strict k L d) (hs : SameSink d d')
    (hclock : d'.clock = d.clock) (hq : d'.ring.queue = d.ring.queue ++ new)
    (ha : acceptedAt k d'.log = acceptedAt k d.log ++ new)
    (htot : (acceptedAt k d.log).length + new.length ≤ L)
    (hlen : d'.comp.otaTotalLen = d.comp.otaTotalLen ∨ d.PastRead)
    (harm : d'.armed = d.armed ∨
      ((acceptedAt k d.log).length = L ∧ d.PastArmed ∧ d.pump.pc ≠ .timeout))
    (hn : d'.nimble.Later) (hstop : d'.nimble = .stopDisarm → (acceptedAt k d.log).length = L)
    (hk : ∀ kd data, (kd, .dropped data) ∈ d'.log → (kd, .dropped data) ∈ d.log) :
    Transfer strict k L d' := by
  have htot' : (acceptedAt k d'.log).length ≤ L := by
    rw [ha, List.length_append]
    exact htot
  refine ⟨hclock.trans ht.clock, hn, htot', fun hx => ?_, fun kd data hm => ht.kept kd data
    (hk kd data hm), ht.phase.frame hs hq ha htot' hlen harm⟩
  have := hstop hx
  rw [ha, List.length_append] at htot' ⊢
  omega

theorem dropped_not_mem_notified {c : OtaChar} {frame sector : List UInt8} {data : List Cell} :
    .dropped data ∉ d.notified c frame sector := by
  intro h
  obtain ⟨f, -, hf⟩ := List.mem_map.mp h
  cases hf

theorem dropped_not_mem_answered {c : OtaChar} {frame sector : List UInt8} {data : List Cell}
    {e : DevEv} (h : ∀ data, e ≠ .dropped data) :
    .dropped data ∉ e :: d.notified c frame sector := by
  intro hx
  rcases List.mem_cons.mp hx with hx | hx
  · exact h data hx.symm
  · exact dropped_not_mem_notified hx

theorem sink_not_mem_answered {c : OtaChar} {frame sector : List UInt8} {ev : SinkEntry Cell}
    {e : DevEv} (h : ∀ ev, e ≠ .sink ev) : .sink ev ∉ e :: d.notified c frame sector := by
  intro hx
  rcases List.mem_cons.mp hx with hx | hx
  · exact h ev hx.symm
  · exact sink_not_mem_notified hx

/-- A step of the NimBLE side with entries, none of them of the sink or about a drop. -/
theorem Transfer.emits {es : List DevEv} {w : List Cell} (ht : Transfer strict k L d)
    (hp : d'.pump = d.pump) (hs : d'.sink = d.sink) (hl : d'.log = (d.emit es).log)
    (hne : ∀ ev, .sink ev ∉ es)
    (hnd : ∀ data, .dropped data ∉ es) (hclock : d'.clock = d.clock)
    (hw : es.flatMap DevEv.accepts = w) (hq : d'.ring.queue = d.ring.queue ++ w)
    (htot : (acceptedAt k d.log).length + w.length ≤ L)
    (hlen : d'.comp.otaTotalLen = d.comp.otaTotalLen ∨ d.PastRead)
    (harm : d'.armed = d.armed ∨
      ((acceptedAt k d.log).length = L ∧ d.PastArmed ∧ d.pump.pc ≠ .timeout))
    (hn : d'.nimble.Later) (hstop : d'.nimble = .stopDisarm → (acceptedAt k d.log).length = L) :
    Transfer strict k L d' := by
  refine ht.frame (.of_emit hp hs hl hne) hclock hq ?_ htot hlen harm hn hstop fun kd data hm => ?_
  · rw [hl, acceptedAt_emit, if_pos ht.clock, hw]
  · rw [hl] at hm
    exact (mem_emit.mp hm).resolve_right fun hx => hnd _ hx.2

/-- A step of the NimBLE side without entries. -/
theorem Transfer.silent (ht : Transfer strict k L d) (hp : d'.pump = d.pump) (hs : d'.sink = d.sink)
    (hl : d'.log = d.log) (hclock : d'.clock = d.clock) (hq : d'.ring = d.ring)
    (hlen : d'.comp.otaTotalLen = d.comp.otaTotalLen ∨ d.PastRead)
    (harm : d'.armed = d.armed ∨
      ((acceptedAt k d.log).length = L ∧ d.PastArmed ∧ d.pump.pc ≠ .timeout))
    (hn : d'.nimble.Later) (hstop : d'.nimble = .stopDisarm → (acceptedAt k d.log).length = L) :
    Transfer strict k L d' := by
  have ha : acceptedAt k d'.log = acceptedAt k d.log ++ [] := by rw [hl, List.append_nil]
  have hq' : d'.ring.queue = d.ring.queue ++ [] := by rw [hq, List.append_nil]
  exact ht.frame (.of_log hp hs hl) hclock hq' ha ht.total hlen harm hn hstop (by simp [hl])

/-- Only an old item is dropped. -/
theorem Phase.drops (hph : Phase strict k L d)
    (hpc : d.pump.pc = .giveBack ∨ ∃ err, d.pump.pc = .wrote err ∧ err ≠ .ok ∧ err ≠ .nvs) :
    ∀ c ∈ d.pump.data, c.born ≠ k := by
  cases hph with
  | old h => exact h.item
  | fresh h =>
    have hat := h.at_
    rcases hpc with hpc | ⟨err, hpc, -⟩ <;> rw [hpc] at hat <;> exact hat.elim
  | opened h e ho =>
    have hat := ho.at_
    rcases hpc with hpc | ⟨err, hpc, h1, h2⟩ <;> rw [hpc] at hat
    · exact hat.elim
    · exact (hat.2.elim h1 h2).elim
  | full h e hf =>
    have hat := hf.at_
    rcases hpc with hpc | ⟨err, hpc, -⟩ <;> rw [hpc] at hat <;> exact hat.elim

/-- The pump keeps its phase, or goes on to the next one. -/
theorem Phase.step {n : Nat} {idf : Idf} {t : Partition} (hph : Phase strict k L d)
    (hr : (system B).Reach d) (hclock : d.clock = k) (hn : d.nimble.Later)
    (htot : (acceptedAt k d.log).length ≤ L) (hL0 : 0 < L) (hL : L < 2 ^ 32)
    (ht : B.running.bind B.nextUpdate = some t) (hfit : L ≤ t.size)
    (hg : Given strict k L d (.pump n idf)) (hst : (system B).step (.pump n idf) d = some d') :
    Phase strict k L d' := by
  obtain ⟨hb, hw, hidf⟩ := hg
  cases hph with
  | old h => exact h.step hr hst
  | fresh h => exact h.step hr hclock hL0 ht hfit hb hst
  | opened h e ho => exact ho.step hr hL0 hL htot hn hw hst
  | full h e hf => exact .full h e (hf.step hr hidf hst)

/-- What a step of the pump leaves of the rest. -/
theorem pumpStep_frame {n : Nat} {idf : Idf} (hst : (system B).step (.pump n idf) d = some d') :
    d'.clock = d.clock ∧ d'.nimble = d.nimble ∧ acceptedAt k d'.log = acceptedAt k d.log ∧
      ∀ kd data, (kd, .dropped data) ∈ d'.log → (kd, .dropped data) ∈ d.log ∨
        data = d.pump.data ∧ (d.pump.pc = .giveBack ∨
          ∃ err, d.pump.pc = .wrote err ∧ err ≠ .ok ∧ err ≠ .nvs) := by
  have hdrop : ∀ {kd data}, (kd, .dropped data) ∈ (d.emit [.dropped d.pump.data]).log →
      (kd, .dropped data) ∈ d.log ∨ data = d.pump.data := by
    intro kd data hm
    rcases mem_emit.mp hm with hm | ⟨-, hm⟩
    · exact .inl hm
    · simp at hm
      exact .inr hm
  have hacc : acceptedAt k (d.emit [.dropped d.pump.data]).log = acceptedAt k d.log := by
    rw [acceptedAt_emit]
    simp [DevEv.accepts]
  have hsect : ∀ {o : SinkCall Cell} {es : List (SinkEntry Cell)} {out : Out Cell} {kd data},
      (kd, .dropped data) ∈ (d.doSection o es out).log → (kd, .dropped data) ∈ d.log := by
    intro o es out kd data hm
    rcases mem_emit.mp hm with hm | ⟨-, hm⟩
    · exact hm
    · simp at hm
  cases step_act hst with
  | giveBack hpc =>
    exact ⟨rfl, rfl, hacc, fun kd data hm => (hdrop hm).imp_right fun hx => ⟨hx, .inl hpc⟩⟩
  | wroteFail hpc h1 h2 =>
    exact ⟨rfl, rfl, hacc, fun kd data hm =>
      (hdrop hm).imp_right fun hx => ⟨hx, .inr ⟨_, hpc, h1, h2⟩⟩⟩
  | calls | sections => exact ⟨rfl, rfl, acceptedAt_section _ _ _, fun _ _ hm => .inl (hsect hm)⟩
  | _ => exact ⟨rfl, rfl, rfl, fun _ _ => .inl⟩

/-- **Every step of the transfer** that is as given and meets the condition keeps the invariant. -/
theorem Transfer.step {t : Partition} (ht : Transfer strict k L d) (hr : (system B).Reach d)
    (hL0 : 0 < L) (hL : L < 2 ^ 32) (htgt : B.running.bind B.nextUpdate = some t)
    (hfit : L ≤ t.size) (hg : Given strict k L d l) (hc : StopCond d l)
    (hst : (system B).step l d = some d') : Transfer strict k L d' := by
  have hlater := ht.nimble
  cases l with
  | pump n idf =>
    obtain ⟨h1, h2, h3, h4⟩ := pumpStep_frame (k := k) hst
    refine ⟨h1.trans ht.clock, h2 ▸ ht.nimble, h3 ▸ ht.total, ?_, fun kd data hm => ?_,
      ht.phase.step hr ht.clock ht.nimble ht.total hL0 hL htgt hfit hg hst⟩
    · rw [h2, h3]
      exact ht.stop
    · rcases h4 kd data hm with hm | ⟨rfl, hpc⟩
      · exact ht.kept kd data hm
      · exact ht.phase.drops hpc
  | ble ev =>
    cases step_act hst with
    | @reply om frame err c hn ho =>
      have hlen := (recvFwWrite_frame om d.comp).1
      rw [ho] at hlen
      have hmem : ∀ {e}, e ∈ frame.toList.flatMap ({ d with comp := c }.notified .recvFw · []) →
          ∃ f, e ∈ { d with comp := c }.notified .recvFw f [] := fun hx => by
        obtain ⟨f, -, hx⟩ := List.mem_flatMap.mp hx
        exact ⟨f, hx⟩
      refine ht.emits rfl rfl rfl (fun ev hx => ?_) (fun data hx => ?_) rfl (w := []) ?_
        (List.append_nil _).symm ht.total (.inl hlen) (.inl rfl) ht.nimble ht.stop
      · obtain ⟨f, hx⟩ := hmem hx
        exact sink_not_mem_notified hx
      · obtain ⟨f, hx⟩ := hmem hx
        exact dropped_not_mem_notified hx
      · cases frame <;> simp
    | @sectorEnd om sector delivered frame c hn ho =>
      have hlen := (recvFwWrite_frame om d.comp).1
      rw [ho] at hlen
      exact ht.silent rfl rfl rfl rfl rfl (.inl hlen) (.inl rfl) trivial (by simp)
    | @start om malloc frame c hn ho =>
      rcases bleOtaStartWriteChr_cases om malloc d.comp with ⟨hs, -⟩ | ⟨-, _, hx, -⟩ | hx
      · exact absurd hs hg.1
      all_goals rw [hx] at ho; cases ho
    | @stop om malloc frame c hn ho =>
      rcases bleOtaStartWriteChr_cases om malloc d.comp with ⟨hs, -⟩ | ⟨hs, -⟩ | hx
      · exact absurd hs hg.1
      · exact ht.emits rfl rfl rfl (fun _ => sink_not_mem_notified)
          (fun _ => dropped_not_mem_notified) rfl (accepts_notified _ _ _)
          (List.append_nil _).symm ht.total (.inr (hc hs)) (.inl rfl) trivial (fun _ => hg.2 hs)
      · rw [hx] at ho; cases ho
    | @otherCommand om malloc c hn ho =>
      rcases bleOtaStartWriteChr_cases om malloc d.comp with ⟨-, _, _, hx, -⟩ | ⟨-, _, hx, -⟩ | hx
      all_goals rw [hx] at ho; cases ho
      exact ht.silent rfl rfl rfl rfl rfl (.inl rfl) (.inl rfl) ht.nimble ht.stop
    | subscribe hn => exact ht.silent rfl rfl rfl rfl rfl (.inl rfl) (.inl rfl) ht.nimble ht.stop
    | disconnect hn =>
      exact ht.silent rfl rfl rfl rfl rfl (.inl rfl) (.inr ⟨hg, hc.1, hc.2⟩) ht.nimble ht.stop
  | nimble n =>
    cases step_act hst with
    | recvPass hn => exact ht.silent rfl rfl rfl rfl rfl (.inl rfl) (.inl rfl) trivial (by simp)
    | recvRefuse hn | sendFull hn =>
      exact ht.emits rfl rfl rfl (fun _ => sink_not_mem_answered (by simp))
        (fun _ => dropped_not_mem_answered (by simp)) rfl (w := []) (by simp [DevEv.accepts])
        (List.append_nil _).symm ht.total (.inl rfl) (.inl rfl) trivial (by simp)
    | @sendOk n sector delivered frame ring hn hs =>
      obtain ⟨-, hq, -⟩ := Ring.send_eq_some hs
      refine ht.emits rfl rfl rfl (fun _ => sink_not_mem_answered (by simp))
        (fun _ => dropped_not_mem_answered (by simp)) rfl (w := d.cells delivered)
        (by simp [DevEv.accepts]) hq ?_ (.inl rfl) (.inl rfl) trivial (by simp)
      simpa [cells] using (hg sector delivered frame hn).2
    | stopDisarm hn =>
      obtain ⟨h1, h2⟩ := hc hn
      exact ht.silent rfl rfl rfl rfl rfl (.inl rfl) (.inr ⟨ht.stop hn, h1, h2⟩) trivial (by simp)
    | startArm hn | startUnblock hn | flushTake hn | flushDone hn | flushReturn hn
      | startInvalidate hn =>
      rw [hn] at hlater
      exact hlater.elim

/-- **The end of a Start callback** in a clean state starts a transfer. -/
theorem Transfer.start {n : Nat} (hr : (system B).Reach d) (hn : d.nimble = .startInvalidate)
    (hclean : CleanStart d) (hst : (system B).step (.nimble n) d = some d') :
    Transfer strict d'.clock d.comp.otaTotalLen d' := by
  have hd := HistoryOk.reach hr
  have harm : d.armed = true := armed_inStart hr (by rw [hn]; trivial)
  cases step_act hst with
  | startInvalidate =>
    have hold : ∀ x ∈ (d.emit [.sink .poke]).log,
        x.1 ≤ d.clock ∧ ∀ c ∈ x.2.cells, c.born ≤ d.clock := by
      intro x hx
      rcases mem_emit.mp hx with hx | ⟨hx, he⟩
      · exact ⟨hd.stamp x hx, hd.logged x hx⟩
      · rw [List.mem_singleton.mp he]
        exact ⟨Nat.le_of_eq hx, by simp [DevEv.cells]⟩
    have hacc : acceptedAt (d.clock + 1) (d.emit [.sink .poke]).log = [] := by
      refine List.flatMap_eq_nil_iff.mpr fun x hx => ?_
      have := (hold x hx).1
      rw [if_neg (by omega)]
    refine ⟨rfl, trivial, ?_, by simp, fun kd data hm c hc => ?_, .old ⟨?_, fun c hc => ?_, rfl,
      hclean.next, fun kw h' data err hm _ c hc => ?_, hclean.item, hclean.epoch, .inr ⟨harm, rfl⟩⟩⟩
    · show (acceptedAt (d.clock + 1) (d.emit [.sink .poke]).log).length ≤ _
      rw [hacc]
      exact Nat.zero_le _
    · exact Nat.ne_of_lt (Nat.lt_succ_of_le ((hold _ hm).2 c hc))
    · show acceptedAt (d.clock + 1) (d.emit [.sink .poke]).log = d.ring.queue
      rw [hacc, hclean.ring]
    · exact Nat.ne_of_lt (Nat.lt_succ_of_le (hd.item c hc))
    · exact Nat.ne_of_lt (Nat.lt_succ_of_le ((hold _ hm).2 c hc))
  | recvPass h | recvRefuse h | sendOk h | sendFull h | startArm h | startUnblock h | flushTake h
    | flushDone h | flushReturn h | stopDisarm h => rw [hn] at h; cases h

/-- The invariant at the end of a run of such steps. -/
theorem Transfer.run {d₀ d₁ : Device} {n : Nat} {t : Partition} (hr : (system B).Reach d₀)
    (hn : d₀.nimble = .startInvalidate) (hst : (system B).step (.nimble n) d₀ = some d₁)
    (hclean : CleanStart d₀) (hL0 : 0 < d₀.comp.otaTotalLen)
    (htgt : B.running.bind B.nextUpdate = some t) (hfit : d₀.comp.otaTotalLen ≤ t.size)
    (hrun : (system B).Run (fun d l => Given strict d₁.clock d₀.comp.otaTotalLen d l ∧ StopCond d l)
      d₁ d) :
    (system B).Reach d ∧ Transfer strict d₁.clock d₀.comp.otaTotalLen d := by
  have hL := otaTotalLen_lt hr
  refine hrun.invariant
    (I := fun d => (system B).Reach d ∧ Transfer strict d₁.clock d₀.comp.otaTotalLen d)
    (fun l s s' hi hc hs => ?_) ⟨.step _ hr hst, .start hr hn hclean hst⟩
  exact ⟨.step l hi.1 hs, hi.2.step hi.1 hL0 hL htgt hfit hc.1 hc.2 hs⟩

end Device

end BleOta
