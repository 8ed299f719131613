import BleOta.Device.Invariant
import Mathlib.Data.List.Induction

/-!
# The sessions of a Start

Between two Start callbacks the clock is even and constant, so the entries and the bytes of one
Start have one clock. `OneSession`: where a session is opened, none has been opened before for the
same Start, no byte of it has been dropped or written, and its first data was not refused.

* `one_session_run`: `OneSession` holds in every run where, once the first data of the present Start
  is refused or the pump gives up a chunk of it or its session, nothing more of that Start is in the
  ring or enters it (`SessionCond`).
* `second_session`: a run where a failed write is followed by a second session.

The invariant (`SessionsOk`): once a byte of the present Start is used up, its first data refused or
its session opened, the session is live, or the pump cannot come to another open (`Shut`).
-/

namespace BleOta

open Lib (Ring)

/-- The entry of a successful `ota_sink_session_open`. -/
def DevEv.Opens : DevEv → Prop
  | .sink (.ev (.otaBegin _ _ _ err)) => err = espOk
  | _ => False

/-- The bytes that an entry takes out of the stream: to the flash, or away. -/
def DevEv.consumed : DevEv → List Cell
  | .sink (.ev (.otaWrite _ data _)) => data
  | .dropped data => data
  | _ => []

theorem DevEv.mem_cells {e : DevEv} {c : Cell} (h : c ∈ e.consumed) : c ∈ e.cells := by
  unfold DevEv.consumed at h
  split at h
  · exact h
  · exact h
  · cases h

/-- The entry of bytes that came to the firmware callback. -/
def DevEv.isData : DevEv → Bool
  | .accepted data => !data.isEmpty
  | .refused data => !data.isEmpty
  | _ => false

/-- The bytes that the firmware callback dropped. -/
def DevEv.refusedData : DevEv → List UInt8
  | .refused data => data
  | _ => []

namespace Device

/-- The first data of the Start with the clock `k`. -/
def firstData (k : Nat) (log : List (Nat × DevEv)) : Option (Nat × DevEv) :=
  log.find? fun x => x.1 == k && x.2.isData

/-- The data stream of the Start with the clock `k` has lost its beginning, or given it to a
session: a session has been opened, a byte written or dropped, or the first data refused. -/
def Spent (k : Nat) (log : List (Nat × DevEv)) : Prop :=
  (∃ x ∈ log, (x.1 = k ∧ x.2.Opens) ∨ ∃ c ∈ x.2.consumed, c.born = k) ∨
    ∃ data, firstData k log = some (k, .refused data)

/-- A session that is opened between two Start callbacks is the first one of its Start, and comes
before any byte of that Start is written or dropped, and not after its first data was refused. -/
def OneSession (log : List (Nat × DevEv)) : Prop :=
  ∀ pre y post, log = pre ++ y :: post → y.1 % 2 = 0 → y.2.Opens → ¬Spent y.1 pre

/-- The stream of the present Start is spent. -/
def Used (d : Device) : Prop := Spent d.clock d.log

/-- The next step of the NimBLE host task refuses the first data of the present Start. -/
def RefusesFirst (d : Device) : Prop :=
  firstData d.clock d.log = none ∧ match d.nimble with
    | .recvCheck _ delivered _ => delivered ≠ [] ∧ ¬(d.armed = true ∧ d.openBlocked = false)
    | .recvSend _ delivered _ => delivered ≠ [] ∧ d.ring.send (d.cells delivered) = none
    | _ => False

/-- The next step of the pump gives up a chunk of the present Start, or the session. -/
def GivesUp (d : Device) : Prop :=
  match d.pump.pc with
  | .giveBack => d.sink.sink.sessionLive = false ∧ ∃ c ∈ d.pump.data, c.born = d.clock
  | .wrote err => err ≠ .ok ∧ err ≠ .nvs ∧ d.sink.sink.sessionLive = false ∧
      ∃ c ∈ d.pump.data, c.born = d.clock
  | .aborting => d.sink.sink.sessionLive = true
  | .inSink _ (.finishLock _ ier) => d.sink.sink.sessionLive = true ∧ ier ≠ espOk
  | _ => False

/-- The pump cannot come to another open before the next Start. -/
def Shut (d : Device) : Prop :=
  d.pump.pc = .halted ∨ (d.armed = false ∧ ¬(d.pump.pc = .readLen ∨ ∃ n, d.pump.pc = .opening n)) ∨
    (d.ring.queue = [] ∧ ¬d.pump.pc.BeforeOpen)

/-- The condition of a step between two Start callbacks: where the pump gives up a chunk or the
session while the transport is armed, the ring is empty; where the first data is refused, a session
is live or the pump comes to no open; after any of these no chunk enters the ring. -/
def SessionCond (d : Device) : DevLabel → Prop
  | .pump _ _ => d.clock % 2 = 0 → d.armed = true → d.GivesUp → d.ring.queue = []
  | .nimble _ =>
      ((∃ sector delivered frame, d.nimble = .recvSend sector delivered frame) → d.Used →
        d.sink.sink.sessionLive = true) ∧
      (d.RefusesFirst → d.sink.sink.sessionLive = true ∨ d.Shut)
  | .ble _ => True

/-- The invariant (module doc). While the pump writes to a session that is not live, its item is
older than the present Start. -/
structure SessionsOk (d : Device) : Prop where
  one : OneSession d.log
  shut : d.clock % 2 = 0 → d.Used → d.sink.sink.sessionLive = true ∨ d.Shut
  flash : ∀ o e h data, d.pump.pc = .inSink o (.writeFlash e h data) →
    d.sink.sink.sessionLive = true ∨ ∀ c ∈ d.pump.data, c.born < d.clock

variable {B : Board} {d d' : Device} {l : DevLabel} {log es : List (Nat × DevEv)} {k : Nat}
  {y : Nat × DevEv}

/-! ## Entries that open nothing -/

theorem oneSession_snoc : OneSession (log ++ [y]) ↔
    OneSession log ∧ (y.1 % 2 = 0 → y.2.Opens → ¬Spent y.1 log) := by
  constructor
  · intro h
    refine ⟨fun pre z post hlog => ?_, h log y [] rfl⟩
    apply h pre z (post ++ [y])
    rw [hlog, List.append_assoc, List.cons_append]
  · rintro ⟨h, hy⟩ pre z post hlog
    rcases List.eq_nil_or_concat post with rfl | ⟨post', y', rfl⟩
    · obtain ⟨rfl, hz⟩ := List.append_inj' hlog rfl
      cases hz
      exact hy
    · rw [List.concat_eq_append, ← List.cons_append, ← List.append_assoc] at hlog
      exact h pre z post' (List.append_inj' hlog rfl).1

theorem OneSession.append (h : OneSession log) (hn : ∀ x ∈ es, ¬x.2.Opens) :
    OneSession (log ++ es) := by
  induction es using List.reverseRecOn with
  | nil => rwa [List.append_nil]
  | append_singleton es y ih =>
    rw [← List.append_assoc]
    refine oneSession_snoc.mpr ⟨ih fun x hx => hn x (List.mem_append_left _ hx), fun _ ho => ?_⟩
    exact absurd ho (hn y (List.mem_append_right _ (List.mem_singleton_self y)))

/-- Entries that open no session, take no byte out of the stream and refuse none. -/
def Quiet (es : List (Nat × DevEv)) : Prop :=
  ∀ x ∈ es, ¬x.2.Opens ∧ x.2.consumed = [] ∧ x.2.refusedData = []

theorem firstData_refused {data : List UInt8} (h : firstData k log = some (k, .refused data)) :
    (k, .refused data) ∈ log ∧ data ≠ [] := by
  refine ⟨List.mem_of_find?_eq_some h, fun hnil => ?_⟩
  have hdata := List.find?_some h
  simp [DevEv.isData, hnil] at hdata

/-- The first data is not among entries that refuse none. -/
theorem firstData_of_append {data : List UInt8}
    (h : firstData k (log ++ es) = some (k, .refused data))
    (hes : ∀ x ∈ es, x.2.refusedData = []) : firstData k log = some (k, .refused data) := by
  rcases Option.or_eq_some_iff.mp (List.find?_append.symm.trans h) with h | ⟨-, h⟩
  · exact h
  · obtain ⟨hm, hne⟩ := firstData_refused h
    exact absurd (hes _ hm) hne

theorem Spent.of_append (h : Spent k (log ++ es)) (hes : Quiet es) : Spent k log := by
  rcases h with ⟨x, hx, hu⟩ | ⟨data, hf⟩
  · rcases List.mem_append.mp hx with hx | hx
    · exact .inl ⟨x, hx, hu⟩
    · obtain ⟨h1, h2, -⟩ := hes x hx
      rcases hu with ⟨-, hu⟩ | ⟨c, hc, -⟩
      · exact absurd hu h1
      · rw [h2] at hc; cases hc
  · exact .inr ⟨data, firstData_of_append hf fun x hx => (hes x hx).2.2⟩

theorem Quiet.map {es : List DevEv}
    (h : ∀ e ∈ es, ¬e.Opens ∧ e.consumed = [] ∧ e.refusedData = []) : Quiet (es.map (k, ·)) := by
  intro x hx
  obtain ⟨e, he, rfl⟩ := List.mem_map.mp hx
  exact h e he

theorem quiet_notified {c : OtaChar} {frame sector : List UInt8} {e : DevEv}
    (he : e ∈ d.notified c frame sector) : ¬e.Opens ∧ e.consumed = [] ∧ e.refusedData = [] := by
  obtain ⟨f, -, rfl⟩ := List.mem_map.mp he
  exact ⟨id, rfl, rfl⟩

theorem quiet_cons {c : OtaChar} {frame sector : List UInt8} {e : DevEv}
    (he : ¬e.Opens ∧ e.consumed = [] ∧ e.refusedData = []) :
    Quiet ((e :: d.notified c frame sector).map (d.clock, ·)) := by
  refine .map fun e' he' => ?_
  rcases List.mem_cons.mp he' with rfl | he'
  · exact he
  · exact quiet_notified he'

theorem Used.of_append (hu : d'.Used) (hl : d'.log = d.log ++ es) (hes : Quiet es)
    (hc : d'.clock = d.clock) : d.Used := by
  unfold Used at hu
  rw [hl, hc] at hu
  exact hu.of_append hes

/-- A step outside of the sink with quiet entries. -/
theorem SessionsOk.keep (h : SessionsOk d) (hl : d'.log = d.log ++ es) (hes : Quiet es)
    (hc : d'.clock = d.clock) (hs : d'.sink = d.sink)
    (hsh : d.clock % 2 = 0 → d.Used → d.sink.sink.sessionLive = true ∨ d.Shut →
      d.sink.sink.sessionLive = true ∨ d'.Shut)
    (hf : d'.pump = d.pump ∨ ∀ o pc, d'.pump.pc ≠ .inSink o pc) : SessionsOk d' where
  one := by
    rw [hl]
    exact h.one.append fun x hx => (hes x hx).1
  shut he hu := by
    rw [hc] at he
    have hu' := hu.of_append hl hes hc
    rw [hs]
    exact hsh he hu' (h.shut he hu')
  flash o e hd data hpc := by
    rcases hf with hf | hf
    · rw [hf] at hpc ⊢
      rw [hs, hc]
      exact h.flash o e hd data hpc
    · exact absurd hpc (hf _ _)

/-- A step outside of the sink without entries. -/
theorem SessionsOk.still (h : SessionsOk d) (hl : d'.log = d.log) (hc : d'.clock = d.clock)
    (hs : d'.sink = d.sink)
    (hsh : d.clock % 2 = 0 → d.Used → d.sink.sink.sessionLive = true ∨ d.Shut →
      d.sink.sink.sessionLive = true ∨ d'.Shut)
    (hf : d'.pump = d.pump ∨ ∀ o pc, d'.pump.pc ≠ .inSink o pc) : SessionsOk d' :=
  h.keep (hl.trans (List.append_nil _).symm) nofun hc hs hsh hf

/-- The pump gives its item up. -/
theorem SessionsOk.drop {p : Pump} (h : SessionsOk d)
    (hg : d.clock % 2 = 0 → (∃ c ∈ d.pump.data, c.born = d.clock) →
      d.sink.sink.sessionLive = true ∨ (d.armed = true → d.ring.queue = []))
    (hh : d.pump.pc ≠ .halted) (hp : ¬p.pc.BeforeOpen) (hf : ∀ o pc, p.pc ≠ .inSink o pc) :
    SessionsOk { d.emit [.dropped d.pump.data] with ring := d.ring.giveBack, pump := p } where
  one := h.one.append (by simp [DevEv.Opens])
  shut he hu := by
    have hnot : ¬(p.pc = .readLen ∨ ∃ n, p.pc = .opening n) := by
      rintro (hx | ⟨n, hx⟩) <;> exact hp (by rw [hx]; trivial)
    have hold (hu : d.Used) : d.sink.sink.sessionLive = true ∨
        Shut { d.emit [.dropped d.pump.data] with ring := d.ring.giveBack, pump := p } := by
      refine (h.shut he hu).imp_right ?_
      rintro (hs | ⟨ha, -⟩ | ⟨hq, -⟩)
      · exact absurd hs hh
      · exact .inr (.inl ⟨ha, hnot⟩)
      · exact .inr (.inr ⟨hq, hp⟩)
    rcases hu with ⟨x, hx, hu⟩ | ⟨data, hf⟩
    swap
    · exact hold (.inr ⟨data, firstData_of_append hf (by simp [DevEv.refusedData])⟩)
    rcases mem_emit.mp hx with hx | ⟨-, hx⟩
    · exact hold (.inl ⟨x, hx, hu⟩)
    · have hnew : ∃ c ∈ d.pump.data, c.born = d.clock := by
        rw [List.mem_singleton.mp hx] at hu
        rcases hu with ⟨-, hu⟩ | hu
        · exact hu.elim
        · exact hu
      refine (hg he hnew).imp_right fun hq => ?_
      by_cases ha : d.armed = true
      · exact .inr (.inr ⟨hq ha, hp⟩)
      · exact .inr (.inl ⟨by simpa using ha, hnot⟩)
  flash o e hd data hpc := absurd hpc (hf _ _)

/-! ## The sections of the sink -/

/-- What a section adds to what the present Start has used up. -/
theorem Used.of_section {o : SinkCall Cell} {es : List (SinkEntry Cell)} {out : Out Cell}
    (hes : ∀ ev, .ev ev ∉ es) (hu : (d.doSection o es out).Used) :
    d.Used ∨ (∃ t n h, .otaBegin t n h espOk ∈ out.2.1) ∨
      ∃ h data err, .otaWrite h data err ∈ out.2.1 ∧ ∃ c ∈ data, c.born = d.clock := by
  rcases hu with ⟨⟨k, e⟩, hx, hu⟩ | ⟨data, hf⟩
  swap
  · refine .inl (.inr ⟨data, firstData_of_append hf fun x hx => ?_⟩)
    obtain ⟨e, he, rfl⟩ := List.mem_map.mp hx
    obtain ⟨e, -, rfl⟩ := List.mem_map.mp he
    rfl
  have hold : (k, e) ∈ d.log → d.Used := fun hx => .inl ⟨_, hx, hu⟩
  cases e with
  | sink e =>
    cases e with
    | ev ev =>
      rcases (mem_doSection hes).mp hx with hx | ⟨-, hx⟩
      · exact .inl (hold hx)
      · cases ev with
        | otaBegin t n h err =>
          rcases hu with ⟨-, hu⟩ | ⟨c, hc, -⟩
          · cases (show err = espOk from hu)
            exact .inr (.inl ⟨t, n, h, hx⟩)
          · cases hc
        | otaWrite h data err =>
          rcases hu with ⟨-, hu⟩ | hu
          · exact hu.elim
          · exact .inr (.inr ⟨h, data, err, hx, hu⟩)
        | _ => rcases hu with ⟨-, hu⟩ | ⟨c, hc, -⟩ <;> contradiction
    | _ => rcases hu with ⟨-, hu⟩ | ⟨c, hc, -⟩ <;> contradiction
  | dropped data =>
    refine .inl (hold ?_)
    rcases mem_emit.mp hx with hx | ⟨-, hx⟩
    · exact hx
    · obtain ⟨e, -, he⟩ := List.mem_map.mp hx
      cases he
  | _ => rcases hu with ⟨-, hu⟩ | ⟨c, hc, -⟩ <;> contradiction

theorem quiet_section {k : Nat} {es : List (SinkEntry Cell)}
    (h : ∀ ev, .ev ev ∈ es → ¬(DevEv.sink (.ev ev)).Opens ∧ (DevEv.sink (.ev ev)).consumed = []) :
    Quiet ((es.map DevEv.sink).map (k, ·)) := by
  refine .map fun e he => ?_
  obtain ⟨e, hm, rfl⟩ := List.mem_map.mp he
  cases e with
  | ev ev => exact ⟨(h ev hm).1, (h ev hm).2, rfl⟩
  | call | ret | poke => exact ⟨id, rfl, rfl⟩

theorem ev_not_mem_returned {o : SinkCall Cell} {r : Pc Cell ⊕ Ret} {ev : Ev Cell} :
    .ev ev ∉ (Lib.Code.returned o r : List (SinkEntry Cell)) := by
  unfold Lib.Code.returned
  split <;> simp

/-- A section of the sink opens a session only where the present Start has used up nothing. -/
theorem OneSession.section {o : SinkCall Cell} {p : Option (Pc Cell)} {es : List (SinkEntry Cell)}
    {out : Out Cell} (h : OneSession d.log) (hes : ∀ ev, .ev ev ∉ es)
    (hs : Sect B o p d.sink out)
    (hu : ∀ t n hd, .otaBegin t n hd espOk ∈ out.2.1 → d.clock % 2 = 0 → ¬d.Used) :
    OneSession (d.doSection o es out).log := by
  show OneSession (d.log ++ ((es ++ sectionEntries o out).map .sink).map (d.clock, ·))
  by_cases hb : ∃ t n hd, .otaBegin t n hd espOk ∈ out.2.1
  · -- The entry of the open is between quiet entries of its section.
    obtain ⟨t, n, hd, hb⟩ := hb
    obtain ⟨-, -, -, -, -, -, e, hev⟩ := hs.otaBegin hb
    have hq1 : Quiet (((es ++ (settleEvents d.sink.sink).map Lib.Entry.ev).map DevEv.sink).map
        (d.clock, ·)) := by
      refine quiet_section fun ev hm => ?_
      rcases List.mem_append.mp hm with hm | hm
      · exact absurd hm (hes ev)
      · obtain ⟨ev', hm, he⟩ := List.mem_map.mp hm
        cases he
        rw [settleEvents_mem hm]
        exact ⟨id, rfl⟩
    have hq2 : Quiet (((Lib.Entry.ev (.fire e) :: Lib.Code.returned o out.2.2).map DevEv.sink).map
        (d.clock, ·)) := by
      refine quiet_section fun ev hm => ?_
      rcases List.mem_cons.mp hm with hm | hm
      · cases hm; exact ⟨id, rfl⟩
      · exact absurd hm ev_not_mem_returned
    have hlog : d.log ++ ((es ++ sectionEntries o out).map .sink).map (d.clock, ·) =
        d.log ++
          ((es ++ (settleEvents d.sink.sink).map Lib.Entry.ev).map DevEv.sink).map (d.clock, ·) ++
          [(d.clock, .sink (.ev (.otaBegin t n hd espOk)))] ++
          ((Lib.Entry.ev (.fire e) :: Lib.Code.returned o out.2.2).map DevEv.sink).map
            (d.clock, ·) := by
      simp [sectionEntries, hev]
    rw [hlog]
    refine (oneSession_snoc.mpr ⟨h.append fun x hx => (hq1 x hx).1, fun he _ hspent => ?_⟩).append
      fun x hx => (hq2 x hx).1
    exact hu t n hd hb he (hspent.of_append hq1)
  · refine h.append fun x hx ho => hb ?_
    obtain ⟨e, he, rfl⟩ := List.mem_map.mp hx
    obtain ⟨e, hm, rfl⟩ := List.mem_map.mp he
    cases e with
    | ev ev =>
      cases ev with
      | otaBegin t n hd err =>
        cases (show err = espOk from ho)
        refine ⟨t, n, hd, ?_⟩
        simpa [sectionEntries, hes _, ev_not_mem_returned] using hm
      | _ => exact ho.elim
    | call | ret | poke => exact ho.elim

/-- **A section of the sink** by the pump. A session is opened only where the present Start has
used up nothing: else a session is live, or the pump is `Shut`. -/
theorem SessionsOk.section {o : SinkCall Cell} {p : Option (Pc Cell)} {es : List (SinkEntry Cell)}
    {out : Out Cell} (h : SessionsOk d) (hr : (system B).Reach d) (hes : ∀ ev, .ev ev ∉ es)
    (hs : Sect B o p d.sink out) (hpl : d.place = placeAt o p)
    (hp : ∀ pc, p = some pc → d.pump.pc = .inSink o pc)
    (hopen : ∀ cfg, p = none → o.1 = .sessionOpen cfg → ∃ n, d.pump.pc = .opening n)
    (habort : ∀ e, p = none → o.1 = .sessionAbort e → d.pump.pc = .aborting)
    (hc : d.clock % 2 = 0 → d.armed = true → d.GivesUp → d.ring.queue = []) :
    SessionsOk (d.doSection o es out) := by
  have hok : SinkOk (placeAt o p) d.sink := hpl ▸ sinkOk hr
  have hnot : ¬(d.pump.after o out.2.2).pc.BeforeOpen := d.pump.after_beforeOpen o out.2.2
  have hlate : ¬((d.pump.after o out.2.2).pc = .readLen ∨
      ∃ n, (d.pump.after o out.2.2).pc = .opening n) := by
    rintro (hx | ⟨n, hx⟩) <;> exact hnot (by rw [hx]; trivial)
  have hhalt : d.pump.pc ≠ .halted := by
    intro hx
    cases p <;> simp [place, hx, placeAt] at hpl
  have hempty : (d.armed = true → d.ring.queue = []) → (d.doSection o es out).Shut := by
    intro hq
    by_cases ha : d.armed = true
    · exact .inr (.inr ⟨hq ha, hnot⟩)
    · exact .inr (.inl ⟨by simpa [doSection] using ha, hlate⟩)
  have hshut : d.Shut → (d.doSection o es out).Shut := by
    rintro (hx | ⟨ha, -⟩ | ⟨hq, -⟩)
    · exact absurd hx hhalt
    · exact .inr (.inl ⟨ha, hlate⟩)
    · exact .inr (.inr ⟨hq, hnot⟩)
  refine ⟨h.one.section hes hs fun t n hd hb he hu => ?_, fun he hu => ?_,
    fun o' e hd data hpc => ?_⟩
  · obtain ⟨⟨cfg, ho, -⟩, hn, hl, -⟩ := hs.otaBegin hb
    obtain ⟨m, hpc⟩ := hopen _ hn ho
    rcases h.shut he hu with hl' | hsh | ⟨-, hsh⟩ | ⟨-, hsh⟩
    · rw [hok.settle_live, hl'] at hl
      cases hl
    · exact hhalt hsh
    · exact hsh (.inr ⟨m, hpc⟩)
    · exact hsh (by rw [hpc]; trivial)
  · rcases hu.of_section hes with hu | ⟨t, n, hd, hb⟩ | ⟨hd, data, err, hw, c, hcm, hcb⟩
    · have hold := h.shut he hu
      rcases hs.live hok with hl | ⟨-, -, hl⟩ | ⟨hn, hl, e, ho⟩ | ⟨hd, ier, hn, hi⟩ | ⟨rb, hn, hr'⟩
      · exact hold.imp (fun hx => hl.trans hx) hshut
      · exact .inl hl
      · exact .inr (hempty fun ha => hc he ha (by simp only [GivesUp, habort e hn ho]; exact hl))
      · by_cases hl : d.sink.sink.sessionLive = true
        · exact .inr (hempty fun ha => hc he ha (by simp only [GivesUp, hp _ hn]; exact ⟨hl, hi⟩))
        · exact .inr (hshut (hold.resolve_left hl))
      · refine .inr (.inl ?_)
        show (d.pump.after o out.2.2).pc = .halted
        rw [hr', activate_restarts hr (hp _ hn)]
        rfl
    · exact .inl (hs.otaBegin hb).2.2.2.2.2.1
    · obtain ⟨⟨e, hn⟩, -, hsame⟩ := hs.otaWrite hw
      have hpc := hp _ hn
      obtain ⟨-, -, rfl, -⟩ := flash_item hr hpc
      rcases h.flash _ _ _ _ hpc with hl | hold
      · exact .inl (by show out.1.sink.sessionLive = true; rw [hsame]; exact hl)
      · exact absurd hcb (Nat.ne_of_lt (hold c hcm))
  · rcases hr' : out.2.2 with pc | r
    · rw [doSection_inl _ _ hr'] at hpc
      cases hpc
      obtain ⟨hl, hsame⟩ := hs.writeFlash hr'
      exact .inl (by show out.1.sink.sessionLive = true; rw [hsame]; exact hl)
    · exact absurd hpc (doSection_inr _ _ hr' _ _)

/-! ## Steps -/

/-- A step of the pump outside of the sink that comes no closer to an open. -/
theorem Shut.pump (h : d.Shut) (hpc : d.pump.pc ≠ .halted) (harmed : d'.armed = d.armed)
    (hqueue : d'.ring.queue = d.ring.queue)
    (hb : d'.pump.pc.BeforeOpen → d.pump.pc.BeforeOpen)
    (hlate : (d'.pump.pc = .readLen ∨ ∃ n, d'.pump.pc = .opening n) →
      d.pump.pc = .readLen ∨ ∃ n, d.pump.pc = .opening n) : d'.Shut := by
  rcases h with hx | ⟨ha, hx⟩ | ⟨hq, hx⟩
  · exact absurd hx hpc
  · exact .inr (.inl ⟨harmed.trans ha, fun hy => hx (hlate hy)⟩)
  · exact .inr (.inr ⟨hqueue.trans hq, fun hy => hx (hb hy)⟩)

/-- Nothing in the log has a clock that is to come. -/
theorem HistoryOk.not_spent (hd : d.HistoryOk) : ¬Spent (d.clock + 1) d.log := by
  rintro (⟨x, hx, ⟨hk, -⟩ | ⟨c, hc, hk⟩⟩ | ⟨data, hf⟩)
  · have := hd.stamp x hx
    omega
  · have := hd.logged x hx c (DevEv.mem_cells hc)
    omega
  · have := hd.stamp _ (List.mem_of_find?_eq_some hf)
    simp only at this
    omega

/-- The Start ends with a new clock. -/
theorem SessionsOk.startInvalidate (h : SessionsOk d) (hd : d.HistoryOk) :
    SessionsOk { d.emit [.sink .poke] with
      sink := invalidate d.sink, clock := d.clock + 1, nimble := .idle } := by
  refine ⟨h.one.append (by simp [DevEv.Opens]), fun _ hu => ?_, fun _ _ _ _ _ =>
    .inr fun c hc => Nat.lt_succ_of_le (hd.item c hc)⟩
  have hquiet : Quiet ([DevEv.sink .poke].map (d.clock, ·)) :=
    .map (by simp [DevEv.Opens, DevEv.consumed, DevEv.refusedData])
  exact absurd (Spent.of_append hu hquiet) hd.not_spent

/-- Data is refused. If it is the first data of the present Start, the condition says that no
session comes after it. -/
theorem SessionsOk.refuse {delivered sector frame : List UInt8} (h : SessionsOk d)
    (hc : firstData d.clock d.log = none → delivered ≠ [] →
      d.sink.sink.sessionLive = true ∨ d.Shut) :
    SessionsOk { d.emit (.refused delivered :: d.notified .recvFw frame sector) with
      nimble := .idle } := by
  have hes : ∀ x ∈ (DevEv.refused delivered :: d.notified .recvFw frame sector).map (d.clock, ·),
      ¬x.2.Opens ∧ x.2.consumed = [] ∧ (x.2.refusedData ≠ [] → delivered ≠ []) := by
    intro x hx
    obtain ⟨e, he, rfl⟩ := List.mem_map.mp hx
    rcases List.mem_cons.mp he with rfl | he
    · exact ⟨id, rfl, id⟩
    · obtain ⟨h1, h2, h3⟩ := quiet_notified he
      exact ⟨h1, h2, fun h => absurd h3 h⟩
  refine ⟨h.one.append fun x hx => (hes x hx).1, fun he hu => ?_, h.flash⟩
  rcases hu with ⟨x, hx, hu⟩ | ⟨data, hf⟩
  · rcases List.mem_append.mp hx with hx | hx
    · exact h.shut he (.inl ⟨x, hx, hu⟩)
    · obtain ⟨h1, h2, -⟩ := hes x hx
      rcases hu with ⟨-, hu⟩ | ⟨c, hc, -⟩
      · exact absurd hu h1
      · rw [h2] at hc; cases hc
  · rcases Option.or_eq_some_iff.mp (List.find?_append.symm.trans hf) with hf | ⟨hfirst, hf⟩
    · exact h.shut he (.inr ⟨data, hf⟩)
    · obtain ⟨hm, hne⟩ := firstData_refused hf
      exact hc hfirst ((hes _ hm).2.2 hne)

/-- A flag that is cleared opens nothing. -/
theorem SessionsOk.disarm {n : NimblePc} (h : SessionsOk d) :
    SessionsOk { d with armed := false, nimble := n } := by
  refine h.still rfl rfl rfl (fun _ _ => Or.imp_right ?_) (.inl rfl)
  rintro (hx | ⟨-, hx⟩ | hx)
  · exact .inl hx
  · exact .inr (.inl ⟨rfl, hx⟩)
  · exact .inr (.inr hx)

/-- The events: a disconnect clears the flag. -/
theorem SessionsOk.ble {e : BleEvent} (h : SessionsOk d) (hst : d.bleStep e = some d') :
    SessionsOk d' := by
  cases bleStep_act (B := .otaSlots) hst with
  | reply hn ho =>
    refine h.keep rfl (.map fun e he => ?_) rfl rfl (fun _ _ => id) (.inl rfl)
    obtain ⟨f, -, he⟩ := List.mem_flatMap.mp he
    exact quiet_notified he
  | start hn | stop hn =>
    exact h.keep rfl (.map fun e he => quiet_notified he) rfl rfl (fun _ _ => id) (.inl rfl)
  | otherCommand | subscribe | sectorEnd hn =>
    exact h.still rfl rfl rfl (fun _ _ => id) (.inl rfl)
  | disconnect => exact h.disarm

/-- The callbacks: the condition is about the data that they refuse, and the chunks that they
send. -/
theorem SessionsOk.nimble {n : Nat} (h : SessionsOk d) (hd : d.HistoryOk)
    (hc : SessionCond d (.nimble n)) (hst : d.nimbleStep n = some d') : SessionsOk d' := by
  cases nimbleStep_act (B := .otaSlots) hst with
  | recvPass | startUnblock | flushDone =>
    exact h.still rfl rfl rfl (fun _ _ => id) (.inl rfl)
  | stopDisarm => exact h.disarm
  | recvRefuse hn hflags =>
    refine h.refuse fun hfirst hne => hc.2 ⟨hfirst, ?_⟩
    rw [hn]
    exact ⟨hne, hflags⟩
  | sendFull hn hfull =>
    refine h.refuse fun hfirst hne => hc.2 ⟨hfirst, ?_⟩
    rw [hn]
    exact ⟨hne, hfull⟩
  | sendOk hn hs =>
    exact h.keep rfl (quiet_cons ⟨id, rfl, rfl⟩) rfl rfl
      (fun _ hu _ => .inl (hc.1 ⟨_, _, _, hn⟩ hu)) (.inl rfl)
  | startArm hn =>
    refine ⟨h.one, fun he => ?_, fun o e hh data hpc => ?_⟩
    · have : d.clock % 2 ≠ 1 := fun hx => by simpa [hn, NimblePc.InStart] using hd.odd.mp hx
      simp only at he
      omega
    · exact (h.flash o e hh data hpc).imp_right fun hx c hc => Nat.lt_succ_of_lt (hx c hc)
  | startInvalidate hn => exact h.startInvalidate hd
  | flushTake hn hrc =>
    obtain ⟨-, hq, hne, -⟩ := Ring.receive_eq_some hrc
    refine h.still rfl rfl rfl (fun _ _ => Or.imp_right ?_) (.inl rfl)
    rintro (hx | hx | ⟨hx, -⟩)
    · exact .inl hx
    · exact .inr (.inl hx)
    · rw [hx] at hq
      exact absurd (List.append_eq_nil_iff.mp hq.symm).1 hne
  | flushReturn hn =>
    exact h.keep rfl (.map (by simp [DevEv.Opens, DevEv.consumed, DevEv.refusedData])) rfl rfl
      (fun _ _ => id) (.inl rfl)

/-- The pump: the condition is about the chunks and the sessions that it gives up. -/
theorem SessionsOk.pump {n : Nat} {idf : Idf} (h : SessionsOk d) (hr : (system B).Reach d)
    (hc : SessionCond d (.pump n idf)) (hst : d.pumpStep B n idf = some d') : SessionsOk d' := by
  cases pumpStep_act hst with
  | take hpc hrc =>
    obtain ⟨-, hq, hne, -⟩ := Ring.receive_eq_some hrc
    refine h.still rfl rfl rfl (fun _ _ => Or.imp_right ?_) (.inr (by simp))
    rintro (hx | ⟨ha, -⟩ | ⟨hx, -⟩)
    · rw [hpc] at hx; cases hx
    · exact .inr (.inl ⟨ha, by simp⟩)
    · rw [hx] at hq
      exact absurd (List.append_eq_nil_iff.mp hq.symm).1 hne
  | lazyOpen hpc hne he ha =>
    refine h.still rfl rfl rfl (fun _ _ hx => .inl (hx.resolve_right ?_)) (.inr (by simp))
    rintro (hx | ⟨hx, -⟩ | ⟨-, hx⟩)
    · rw [hpc] at hx; cases hx
    · rw [ha] at hx; cases hx
    · exact hx (by rw [hpc]; trivial)
  | timesOut hpc | timeoutAbort hpc | timeoutBack hpc | emptyItem hpc | toWrite hpc | unarmed hpc
    | zero hpc | length hpc | zeroBlock hpc | failBlock hpc =>
    refine h.still rfl rfl rfl (fun _ _ => Or.imp_right fun hs => ?_) (.inr (by simp))
    exact hs.pump (by simp [hpc]) rfl rfl (by simp [PumpPc.BeforeOpen, hpc]) (by simp [hpc])
  | wroteOk hpc =>
    refine h.still rfl rfl rfl (fun _ _ => Or.imp_right fun hs => ?_) (.inr ?_)
    · refine hs.pump (by simp [hpc]) rfl rfl ?_ ?_
      · dsimp only
        split <;> simp [PumpPc.BeforeOpen]
      · dsimp only
        split <;> simp
    · dsimp only
      split <;> simp
  | giveBack hpc =>
    refine h.drop (fun he hx => ?_) (by simp [hpc]) id (by simp)
    by_cases hl : d.sink.sink.sessionLive = true
    · exact .inl hl
    · exact .inr fun ha => hc he ha (by simp only [GivesUp, hpc]; exact ⟨by simpa using hl, hx⟩)
  | wroteFail hpc h1 h2 =>
    refine h.drop (fun he hx => ?_) (by simp [hpc]) id (by simp)
    by_cases hl : d.sink.sink.sessionLive = true
    · exact .inl hl
    · exact .inr fun ha =>
        hc he ha (by simp only [GivesUp, hpc]; exact ⟨h1, h2, by simpa using hl, hx⟩)
  | calls hcall _ hs =>
    refine h.section hr (by simp) hs (place_of_callOf hcall) (fun _ hx => by cases hx)
      (fun cfg _ ho => ?_) (fun e _ ho => ?_) hc <;>
      rcases d.pump.callOf_cases hcall with ⟨_, hp, rfl⟩ | ⟨hp, rfl⟩ | ⟨hp, rfl⟩ | ⟨hp, rfl⟩ |
        ⟨hp, rfl⟩ <;> cases ho
    · exact ⟨_, hp⟩
    · exact hp
  | sections hpc _ hs =>
    exact h.section hr (by simp) hs (by simp only [place, hpc]; rfl)
      (fun _ hx => by cases hx; exact hpc) (fun _ hx => by cases hx) (fun _ hx => by cases hx) hc

/-- **A step that meets the condition** keeps the invariant. -/
theorem SessionsOk.step (h : SessionsOk d) (hr : (system B).Reach d) (hc : SessionCond d l)
    (hst : (system B).step l d = some d') : SessionsOk d' := by
  cases l with
  | ble e => exact h.ble hst
  | nimble n => exact h.nimble (HistoryOk.reach hr) hc hst
  | pump n idf => exact h.pump hr hc hst

theorem SessionsOk.init : SessionsOk .init :=
  by
  refine ⟨fun pre y post hlog => ?_, fun _ hu => ?_, by rintro o e h data ⟨⟩⟩
  · exact absurd hlog.symm (List.append_ne_nil_of_right_ne_nil pre (List.cons_ne_nil _ post))
  · rcases hu with ⟨x, hx, -⟩ | ⟨data, hf⟩
    · cases hx
    · cases hf

end Device

end BleOta
