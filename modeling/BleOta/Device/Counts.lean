import BleOta.Device.Invariant
import BleOta.Sink.Epochs

/-!
# The pump and the sink count the same bytes

The pump keeps the epoch, the length and the bytes of its session next to the ones of the sink.
`InStep`: while the pump has an epoch, it is the one of the latest successful open, and the length
and the count of the pump are the ones of the sink; between the return of a write and its own
addition the pump is one item behind (`Pump.counted`).

* `InStep.reach`: that holds in every reachable state.
* `finish_complete`: the pump calls `ota_sink_finish` for complete sessions only, and once for each
  epoch that an open has returned.
-/

namespace BleOta

open Lib.Code (returned)

/-! ## The opens and the finishes of a log -/

section Log

variable {α : Type}

/-- A successful open: its configuration and the epoch that it returned. -/
def openedWith : SinkEntry α → Option (OtaSinkSessionCfg × Nat)
  | .ret (.sessionOpen (some cfg), _) (.ret .ok (some e)) => some (cfg, e)
  | _ => none

/-- The successful opens of a log. -/
def opens (log : List (SinkEntry α)) : List (OtaSinkSessionCfg × Nat) := log.filterMap openedWith

/-- The epoch of a call of `ota_sink_finish`. -/
def finishOf : SinkEntry α → Option Nat
  | .call (.finish e, _) => some e
  | _ => none

/-- The epochs that `ota_sink_finish` was called with. -/
def finishes (log : List (SinkEntry α)) : List Nat := log.filterMap finishOf

@[simp] theorem opens_append (l l' : List (SinkEntry α)) : opens (l ++ l') = opens l ++ opens l' :=
  List.filterMap_append

@[simp] theorem finishes_append (l l' : List (SinkEntry α)) :
    finishes (l ++ l') = finishes l ++ finishes l' := List.filterMap_append

theorem opens_map_ev (es : List (Ev α)) : opens (es.map .ev : List (SinkEntry α)) = [] := by
  induction es with
  | nil => rfl
  | cons e es ih => exact ih

theorem finishes_map_ev (es : List (Ev α)) : finishes (es.map .ev : List (SinkEntry α)) = [] := by
  induction es with
  | nil => rfl
  | cons e es ih => exact ih

theorem finishes_returned (o : SinkCall α) (r : Pc α ⊕ Ret) :
    finishes (returned o r : List (SinkEntry α)) = [] := by
  cases r <;> rfl

/-- Only an open that succeeds returns an epoch. -/
theorem opens_returned {o : SinkCall α} {r : Pc α ⊕ Ret}
    (h : ∀ cfg, o.1 = .sessionOpen cfg → ∀ e, r ≠ .inr (.ret .ok e)) :
    opens (returned o r : List (SinkEntry α)) = [] := by
  obtain ⟨op, idf⟩ := o
  rcases r with p | ⟨err, e⟩ | _
  · rfl
  · cases op with
    | sessionOpen cfg =>
      have hne : err ≠ .ok := by
        rintro rfl
        exact h cfg rfl e rfl
      cases cfg <;> cases err <;> first | rfl | exact absurd rfl hne
    | _ => rfl
  · cases op with
    | sessionOpen cfg => cases cfg <;> rfl
    | _ => rfl

end Log

/-! ## What a section does to the session of the sink -/

/-- The parts of a session that the pump keeps too. -/
structure SameCounts (s s' : Sink) : Prop where
  size : s'.imageSize = s.imageSize
  bytes : s'.bytesWritten = s.bytesWritten

/-- **The counts of the sink** change by a successful open and by a write that returns `OK` or
`NVS`, and by no other section. -/
theorem Sect.counts {α : Type} {B : Board} {o : SinkCall α} {p : Option (Pc α)} {s : SinkSt}
    {out : Out α} (hs : Sect B o p s out) (hok : SinkOk (placeAt o p) s) :
    (∃ cfg e, o.1 = .sessionOpen (some cfg) ∧ out.2.2 = .inr (.ret .ok (some e)) ∧
      cfg.imageSize ≠ 0 ∧ out.1.sink.imageSize = cfg.imageSize ∧ out.1.sink.bytesWritten = 0) ∨
    (∃ e data err, o.1 = .write e (some data) ∧ (err = .ok ∨ err = .nvs) ∧
      out.2.2 = .inr (.ret err none) ∧ out.1.sink.imageSize = s.sink.imageSize ∧
      out.1.sink.bytesWritten = u32 (s.sink.bytesWritten + u32 data.length)) ∨
    (SameCounts s.sink out.1.sink ∧
      (∀ cfg, o.1 = .sessionOpen cfg → ∀ e, out.2.2 ≠ .inr (.ret .ok e)) ∧
      ∀ e data, o.1 = .write e data → ∀ err e', out.2.2 = .inr (.ret err e') →
        err ≠ .ok ∧ err ≠ .nvs) := by
  have hset : SameCounts s.sink (settleAbort s.sink).1 := by
    rcases settleAbort_cases s.sink with ⟨-, he⟩ | ⟨-, -, he⟩ | ⟨-, -, he⟩ <;> rw [he] <;>
      exact ⟨rfl, rfl⟩
  have hother : (∀ cfg, o.1 ≠ .sessionOpen cfg) → (∀ e data, o.1 ≠ .write e data) →
      (∀ cfg, o.1 = .sessionOpen cfg → ∀ e, out.2.2 ≠ .inr (.ret .ok e)) ∧
        ∀ e data, o.1 = .write e data → ∀ err e', out.2.2 = .inr (.ret err e') →
          err ≠ .ok ∧ err ≠ .nvs :=
    fun h1 h2 => ⟨fun cfg hc => absurd hc (h1 cfg), fun e data hw => absurd hw (h2 e data)⟩
  have hpl := hok.place
  cases hs with
  | begins ho _ _ h0 => exact .inl ⟨_, _, ho, rfl, h0, rfl, rfl⟩
  | accounts _ _ _ _ he =>
    obtain ⟨⟨data, ho, rfl⟩, -⟩ := hpl
    exact .inr (.inl ⟨_, data, _, ho, he, rfl, rfl, rfl⟩)
  | refused h1 h2 =>
    refine .inr (.inr ⟨⟨rfl, rfl⟩, fun cfg _ e hr => ?_, fun e data _ err e' hr => ?_⟩) <;> cases hr
    · exact h1 rfl
    · exact ⟨h1, h2⟩
  | notOpened ho he =>
    refine .inr (.inr ⟨hset, fun cfg _ e hr => ?_, fun e data hw => ?_⟩)
    · cases hr
      exact he rfl
    · rw [hw] at ho
      cases ho
  | beginFails ho =>
    refine .inr (.inr ⟨⟨hset.size, hset.bytes⟩, fun cfg _ e hr => ?_, fun e data hw => ?_⟩)
    · cases hr
    · rw [hw] at ho
      cases ho
  | flashFails | staleAfter =>
    refine .inr (.inr ⟨⟨rfl, rfl⟩, fun cfg _ e hr => ?_, fun e data _ err e' hr => ?_⟩) <;> cases hr
    exact ⟨by decide, by decide⟩
  | writes | flashed | finishes | ended | activates | bootFailed | booted | cleared =>
    refine .inr (.inr ⟨⟨rfl, rfl⟩, fun cfg _ e hr => ?_, fun e data _ err e' hr => ?_⟩) <;> cases hr
  | aborts ho | drops ho =>
    exact .inr (.inr ⟨⟨rfl, rfl⟩, hother (by simp [ho]) (by simp [ho])⟩)
  | endFailed | validated =>
    have ho : o.1 = .finish s.sink.epoch := hpl.1
    exact .inr (.inr ⟨⟨rfl, rfl⟩, hother (by simp [ho]) (by simp [ho])⟩)
  | undone =>
    obtain ⟨r, ho⟩ : ∃ r, o.1 = .activate s.sink.epoch r := hpl.1
    exact .inr (.inr ⟨⟨rfl, rfl⟩, hother (by simp [ho]) (by simp [ho])⟩)
  | @closed r =>
    have ho : o.1 = .activate s.sink.epoch r := hpl.1
    exact .inr (.inr ⟨⟨rfl, rfl⟩, hother (by simp [ho]) (by simp [ho])⟩)

/-! ## The pump -/

/-- The places where the pump has a session. -/
def PumpPc.InSession : PumpPc → Prop
  | .writing | .wrote _ | .finishing | .activating | .aborting | .inSink .. => True
  | _ => False

/-- The pump has called `ota_sink_finish` for its session. -/
def PumpPc.Finished : PumpPc → Prop
  | .activating | .halted => True
  | .inSink o _ => (∃ e, o.1 = .finish e) ∨ ∃ e r, o.1 = .activate e r
  | _ => False

/-- The bytes of the session with the item whose write has returned. -/
def Pump.counted (p : Pump) : Nat :=
  match p.pc with
  | .wrote err =>
    if err = .ok ∨ err = .nvs then u32 (p.bytesPumped + u32 p.data.length) else p.bytesPumped
  | _ => p.bytesPumped

/-- The pump has a session that it has not finished. -/
def Pump.Unfinished (p : Pump) : Prop := p.epoch ≠ 0 ∧ ¬p.pc.Finished

theorem Pump.counted_of_ne {p : Pump} (h : ∀ err, p.pc ≠ .wrote err) :
    p.counted = p.bytesPumped := by
  unfold counted
  split
  · next hpc => exact absurd hpc (h _)
  · rfl

/-- The pump after a section that is no successful open: it has dropped its session, or keeps it. -/
theorem Pump.after_session (p : Pump) {o : SinkCall Cell} {r : Pc Cell ⊕ Ret}
    (ho : ∀ cfg, o.1 = .sessionOpen cfg → ∀ e, r ≠ .inr (.ret .ok e)) :
    (p.after o r).epoch = 0 ∨ ((p.after o r).epoch = p.epoch ∧ (p.after o r).fwLen = p.fwLen ∧
      (p.after o r).bytesPumped = p.bytesPumped) := by
  obtain ⟨op, idf⟩ := o
  rcases r with pc | ⟨err, e⟩ | _
  · exact .inr ⟨rfl, rfl, rfl⟩
  · cases op with
    | sessionOpen cfg =>
      have hne : err ≠ .ok := by
        rintro rfl
        exact ho cfg rfl e rfl
      simp [Pump.after, hne]
    | write => exact .inr ⟨rfl, rfl, rfl⟩
    | finish =>
      by_cases he : err = .ok
      · simp [Pump.after, he]
      · exact .inl (by simp [Pump.after, he, Pump.reset])
    | activate | sessionAbort => exact .inl rfl
  · exact .inr ⟨rfl, rfl, rfl⟩

/-- The pump after a section that is no successful open and no write that is counted: it has dropped
its session, or it goes on with it. -/
theorem Pump.after_quiet (p : Pump) {o : SinkCall Cell} {r : Pc Cell ⊕ Ret}
    (hgo : ∀ cfg, o.1 = .sessionOpen cfg → ∀ pc, r ≠ .inl pc)
    (ho : ∀ cfg, o.1 = .sessionOpen cfg → ∀ e, r ≠ .inr (.ret .ok e))
    (hw : ∀ e data, o.1 = .write e data → ∀ err e', r = .inr (.ret err e') →
      err ≠ .ok ∧ err ≠ .nvs) :
    ((p.after o r).epoch = 0 ∧ ¬(p.after o r).pc.InSession) ∨
    ((p.after o r).epoch = p.epoch ∧ (p.after o r).fwLen = p.fwLen ∧
      (p.after o r).counted = p.bytesPumped ∧ (p.after o r).pc ≠ .finishing ∧
      ((p.after o r).pc.InSession → ∀ cfg, o.1 ≠ .sessionOpen cfg) ∧
      ((∃ e, o.1 = .finish e) ∨ (∃ e r, o.1 = .activate e r) → (p.after o r).pc.Finished)) := by
  obtain ⟨op, idf⟩ := o
  rcases r with pc | ⟨err, e⟩ | _
  · exact .inr ⟨rfl, rfl, rfl, by rintro ⟨⟩, fun _ cfg hc => hgo cfg hc pc rfl, id⟩
  · cases op with
    | sessionOpen cfg =>
      have hne : err ≠ .ok := by
        rintro rfl
        exact ho cfg rfl e rfl
      have hpc : p.after (.sessionOpen cfg, idf) (.inr (.ret err e)) =
          { p with pc := .openFailed } := by simp [Pump.after, hne]
      rw [hpc]
      exact .inr ⟨rfl, rfl, rfl, by rintro ⟨⟩, False.elim, by simp⟩
    | write e' data =>
      obtain ⟨h1, h2⟩ := hw e' data rfl err e rfl
      refine .inr ⟨rfl, rfl, ?_, by rintro ⟨⟩, by simp, by simp⟩
      simp [Pump.counted, Pump.after, h1, h2]
    | finish e' =>
      by_cases he : err = .ok
      · subst he
        exact .inr ⟨rfl, rfl, rfl, by rintro ⟨⟩, by simp, fun _ => trivial⟩
      · refine .inl ?_
        simp [Pump.after, he, Pump.reset, PumpPc.InSession]
    | activate | sessionAbort => exact .inl ⟨rfl, id⟩
  · exact .inr ⟨rfl, rfl, rfl, by rintro ⟨⟩, False.elim, fun _ => trivial⟩

namespace Device

/-- The invariant (module doc). `once` and `room`: the epochs that are finished are among those
that were returned, with room for the one that the pump has not finished. -/
structure InStep (d : Device) : Prop where
  session : d.pump.epoch ≠ 0 → ∃ cfg, (opens (sinkLog d.log)).getLast? = some (cfg, d.pump.epoch) ∧
    d.pump.fwLen = cfg.imageSize ∧ d.sink.sink.imageSize = cfg.imageSize ∧
    d.sink.sink.bytesWritten = d.pump.counted
  active : d.pump.pc.InSession → d.pump.epoch ≠ 0
  full : d.pump.pc = .finishing → d.pump.fwLen ≤ d.pump.bytesPumped
  once : ∀ e, (finishes (sinkLog d.log)).count e ≤ ((opens (sinkLog d.log)).map (·.2)).count e
  room : d.pump.Unfinished → (finishes (sinkLog d.log)).count d.pump.epoch <
    ((opens (sinkLog d.log)).map (·.2)).count d.pump.epoch

variable {B : Board} {d d' : Device} {l : DevLabel}

theorem InStep.init : InStep .init :=
  ⟨fun h => absurd rfl h, False.elim, by rintro ⟨⟩, fun _ => Nat.le_refl _, fun h => absurd rfl h.1⟩

/-- A step outside of the pump and of the sessions. -/
theorem InStep.frame (h : InStep d) (hp : d'.pump = d.pump)
    (hs : SameCounts d.sink.sink d'.sink.sink)
    (ho : opens (sinkLog d'.log) = opens (sinkLog d.log))
    (hf : finishes (sinkLog d'.log) = finishes (sinkLog d.log)) : InStep d' where
  session he := by
    rw [hp, hs.size, hs.bytes, ho]
    exact h.session (hp ▸ he)
  active := hp ▸ h.active
  full := hp ▸ h.full
  once := by rw [hf, ho]; exact h.once
  room := by rw [hp, hf, ho]; exact h.room

/-- A step of the pump that goes on with its session. -/
theorem InStep.move (h : InStep d) (hs : d'.sink = d.sink) (hl : sinkLog d'.log = sinkLog d.log)
    (he : d'.pump.epoch = d.pump.epoch) (hw : d'.pump.fwLen = d.pump.fwLen)
    (hc : d'.pump.counted = d.pump.counted) (ha : d'.pump.pc.InSession → d.pump.epoch ≠ 0)
    (hf : d'.pump.pc = .finishing → d.pump.fwLen ≤ d'.pump.bytesPumped)
    (hu : d'.pump.Unfinished → d.pump.Unfinished) : InStep d' where
  session hne := by
    rw [hs, hl, he, hw, hc]
    exact h.session (he ▸ hne)
  active hp := he ▸ ha hp
  full hp := hw ▸ hf hp
  once := by rw [hl]; exact h.once
  room hp := by rw [hl, he]; exact h.room (hu hp)

/-- A step of the pump without a session. -/
theorem InStep.without (h : InStep d) (hl : sinkLog d'.log = sinkLog d.log)
    (he : d'.pump.epoch = 0) (ha : ¬d'.pump.pc.InSession) : InStep d' where
  session hne := absurd he hne
  active hp := absurd hp ha
  full hp := absurd (by rw [hp]; trivial) ha
  once := by rw [hl]; exact h.once
  room hp := absurd he hp.1

/-- The next section of the pump is the one at `p` of the call `o`. -/
def AtSection (d : Device) (o : SinkCall Cell) : Option (Pc Cell) → Prop
  | none => d.pump.callOf d.pump.pc = some o.1
  | some pc => d.pump.pc = .inSink o pc

variable {o : SinkCall Cell} {p : Option (Pc Cell)}

theorem AtSection.placeAt (h : d.AtSection o p) : d.place = placeAt o p := by
  cases p with
  | none => exact place_of_callOf h
  | some pc =>
    have hpc : d.pump.pc = .inSink o pc := h
    simp only [place, hpc]
    rfl

/-- The calls of the pump have its own epoch and item. -/
theorem AtSection.cases (h : d.AtSection o p) (hr : (system B).Reach d) :
    (∃ size, p = none ∧ d.pump.pc = .opening size ∧ o.1 = .sessionOpen (some ⟨size, false⟩)) ∨
    (o.1 = .write d.pump.epoch (some d.pump.data)) ∨ o.1 = .finish d.pump.epoch ∨
    o.1 = .activate d.pump.epoch true ∨ (p = none ∧ o.1 = .sessionAbort d.pump.epoch) := by
  cases p with
  | none =>
    rcases d.pump.callOf_cases h with ⟨size, hp, ho⟩ | ⟨-, ho⟩ | ⟨-, ho⟩ | ⟨-, ho⟩ | ⟨-, ho⟩
    · exact .inl ⟨size, rfl, hp, ho⟩
    · exact .inr (.inl ho)
    · exact .inr (.inr (.inl ho))
    · exact .inr (.inr (.inr (.inl ho)))
    · exact .inr (.inr (.inr (.inr ⟨rfl, ho⟩)))
  | some pc =>
    rcases (DevOk.reach hr).call o pc h with ho | ho | ho
    · exact .inr (.inl ho)
    · exact .inr (.inr (.inl ho))
    · exact .inr (.inr (.inr (.inl ho)))

/-- The pump opens without an epoch, and has one in every other call. -/
theorem AtSection.epoch (h : d.AtSection o p) (hr : (system B).Reach d) (hi : InStep d) :
    (∀ cfg, o.1 = .sessionOpen cfg → d.pump.epoch = 0) ∧
      ((∀ cfg, o.1 ≠ .sessionOpen cfg) → d.pump.pc.InSession ∧ d.pump.epoch ≠ 0) := by
  have hin : (∀ cfg, o.1 ≠ .sessionOpen cfg) → d.pump.pc.InSession := by
    intro hne
    cases p with
    | none =>
      rcases d.pump.callOf_cases h with ⟨size, -, ho⟩ | ⟨hp, -⟩ | ⟨hp, -⟩ | ⟨hp, -⟩ | ⟨hp, -⟩
      · exact absurd ho (hne _)
      all_goals rw [hp]; trivial
    | some pc =>
      have hpc : d.pump.pc = .inSink o pc := h
      rw [hpc]
      trivial
  refine ⟨fun cfg ho => ?_, fun hne => ⟨hin hne, hi.active (hin hne)⟩⟩
  apply lazy_epoch hr
  rcases h.cases hr with ⟨size, -, hp, -⟩ | hw | hw | hw | ⟨-, hw⟩
  · rw [hp]
    trivial
  all_goals rw [ho] at hw; cases hw

/-- At a section the pump has counted what the sink has. -/
theorem AtSection.counted (h : d.AtSection o p) : d.pump.counted = d.pump.bytesPumped := by
  apply Pump.counted_of_ne
  intro err hpc
  cases p with
  | none =>
    rcases d.pump.callOf_cases h with ⟨_, hp, -⟩ | ⟨hp, -⟩ | ⟨hp, -⟩ | ⟨hp, -⟩ | ⟨hp, -⟩ <;>
      rw [hp] at hpc <;> cases hpc
  | some pc =>
    have hp : d.pump.pc = .inSink o pc := h
    rw [hp] at hpc
    cases hpc

/-- The pump has not finished its session when it calls `ota_sink_finish`, or is before that. -/
theorem AtSection.unfinished (h : d.AtSection o p) (hne : d.pump.epoch ≠ 0)
    (hf : p = none ∨ ∀ e, o.1 ≠ .finish e) (ha : ∀ e r, o.1 ≠ .activate e r) :
    d.pump.Unfinished := by
  refine ⟨hne, fun hx => ?_⟩
  cases p with
  | none =>
    rcases d.pump.callOf_cases h with ⟨_, hp, -⟩ | ⟨hp, -⟩ | ⟨hp, -⟩ | ⟨hp, ho⟩ | ⟨hp, -⟩ <;>
      rw [hp] at hx
    · exact hx
    · exact hx
    · exact hx
    · exact ha _ _ ho
    · exact hx
  | some pc =>
    have hpc : d.pump.pc = .inSink o pc := h
    rw [hpc] at hx
    rcases hx with ⟨e, ho⟩ | ⟨e, r, ho⟩
    · rcases hf with hf | hf
      · cases hf
      · exact hf e ho
    · exact ha e r ho

/-- The entry of the call, at its first section. -/
def callEntry (o : SinkCall Cell) : Option (Pc Cell) → List (SinkEntry Cell)
  | none => [.call o]
  | some _ => []

theorem opens_callEntry : opens (callEntry o p) = [] := by
  cases p <;> rfl

theorem finishes_callEntry : finishes (callEntry o p) = [] ∨
    p = none ∧ ∃ e, o.1 = .finish e ∧ finishes (callEntry o p) = [e] := by
  obtain ⟨op, idf⟩ := o
  cases p with
  | some pc => exact .inl rfl
  | none =>
    cases op with
    | finish e => exact .inr ⟨rfl, e, rfl, rfl⟩
    | _ => exact .inl rfl

variable {out : Out Cell}

variable (d o p out) in
theorem opens_section : opens (sinkLog (d.doSection o (callEntry o p) out).log) =
    opens (sinkLog d.log) ++ opens (returned o out.2.2 : List (SinkEntry Cell)) := by
  rw [sinkLog_section, sectionEntries]
  simp [opens_callEntry, opens_map_ev]

theorem finishes_section : finishes (sinkLog (d.doSection o (callEntry o p) out).log) =
    finishes (sinkLog d.log) ++ finishes (callEntry o p) := by
  rw [sinkLog_section, sectionEntries]
  simp [finishes_map_ev, finishes_returned]

variable (d o p out) in
theorem finishes_keep (h : ∀ e, o.1 ≠ .finish e) :
    finishes (sinkLog (d.doSection o (callEntry o p) out).log) = finishes (sinkLog d.log) := by
  rcases finishes_callEntry (o := o) (p := p) with hf | ⟨-, e, ho, -⟩
  · rw [finishes_section, hf, List.append_nil]
  · exact absurd ho (h e)

/-- A new session: its epoch is the last one that was returned, and nothing is counted. -/
theorem InStep.opened {cfg : OtaSinkSessionCfg} {idf : Idf} {e : Nat} (h : InStep d)
    (hres : out.2.2 = .inr (.ret .ok (some e))) (hsize : out.1.sink.imageSize = cfg.imageSize)
    (hbytes : out.1.sink.bytesWritten = 0) :
    InStep (d.doSection (.sessionOpen (some cfg), idf)
      (callEntry (.sessionOpen (some cfg), idf) p) out) := by
  have hf := finishes_keep d (.sessionOpen (some cfg), idf) p out (by simp)
  have hp : (d.doSection (.sessionOpen (some cfg), idf)
      (callEntry (.sessionOpen (some cfg), idf) p) out).pump = { d.pump with
        epoch := e, fwLen := cfg.imageSize, bytesPumped := 0,
        pc := if e ≠ 0 then .writing else .giveBack } := by
    show d.pump.after _ out.2.2 = _
    rw [hres]
    rfl
  have ho := opens_section d (.sessionOpen (some cfg), idf) p out
  have hret : opens (returned (.sessionOpen (some cfg), idf) out.2.2 : List (SinkEntry Cell)) =
      [(cfg, e)] := by
    rw [hres]
    rfl
  rw [hret] at ho
  refine ⟨fun hne => ⟨cfg, ?_, ?_, hsize, ?_⟩, fun ha => ?_, fun hx => ?_, fun e' => ?_,
    fun hx => ?_⟩
  · rw [ho, hp, List.getLast?_concat]
  · rw [hp]
  · rw [hp, Pump.counted_of_ne (by intro err; dsimp only; split <;> simp)]
    exact hbytes
  · rw [hp] at ha ⊢
    by_contra hz
    simp [show e = 0 from hz, PumpPc.InSession] at ha
  · rw [hp] at hx
    dsimp only at hx
    split at hx <;> cases hx
  · rw [hf, ho, List.map_append, List.count_append]
    exact Nat.le_trans (h.once e') (Nat.le_add_right _ _)
  · rw [hp, hf, ho, List.map_append, List.count_append]
    have := h.once e
    simp
    omega

/-- A counted write: the item of the pump is counted on both sides. -/
theorem InStep.wrote {e : Nat} {data : List Cell} {err : OtaSinkErr} {idf : Idf} (h : InStep d)
    (hr : (system B).Reach d) (hat : d.AtSection (.write e (some data), idf) p)
    (herr : err = .ok ∨ err = .nvs) (hres : out.2.2 = .inr (.ret err none))
    (hsize : out.1.sink.imageSize = d.sink.sink.imageSize)
    (hbytes : out.1.sink.bytesWritten = u32 (d.sink.sink.bytesWritten + u32 data.length)) :
    InStep (d.doSection (.write e (some data), idf) (callEntry (.write e (some data), idf) p)
      out) := by
  have hne := ((hat.epoch hr h).2 (by simp)).2
  have hun := hat.unfinished hne (.inr (by simp)) (by simp)
  have hdata : data = d.pump.data := by
    rcases hat.cases hr with ⟨_, -, -, hw⟩ | hw | hw | hw | ⟨-, hw⟩ <;> cases hw
    rfl
  have hp : (d.doSection (.write e (some data), idf) (callEntry (.write e (some data), idf) p)
      out).pump = { d.pump with pc := .wrote err } := by
    show d.pump.after _ out.2.2 = _
    rw [hres]
    rfl
  have hf := finishes_keep d (.write e (some data), idf) p out (by simp)
  have ho := opens_section d (.write e (some data), idf) p out
  rw [opens_returned (by simp), List.append_nil] at ho
  obtain ⟨cfg, hlast, hfw, hsz, hbw⟩ := h.session hne
  refine ⟨fun _ => ⟨cfg, ?_, ?_, hsize.trans hsz, ?_⟩, fun _ => ?_, fun hx => ?_, ?_, fun _ => ?_⟩
  · rw [ho, hp]
    exact hlast
  · rw [hp]
    exact hfw
  · have hc : ({ d.pump with pc := .wrote err } : Pump).counted =
        u32 (d.pump.bytesPumped + u32 d.pump.data.length) := by
      simp [Pump.counted, herr]
    rw [hp, hc]
    refine hbytes.trans ?_
    rw [hbw, hat.counted, hdata]
  · rw [hp]
    exact hne
  · rw [hp] at hx
    cases hx
  · rw [hf, ho]
    exact h.once
  · rw [hp, hf, ho]
    exact h.room hun

/-- A section that counts nothing. -/
theorem InStep.quiet (h : InStep d) (hr : (system B).Reach d) (hat : d.AtSection o p)
    (hs : Sect B o p d.sink out) (hsame : SameCounts d.sink.sink out.1.sink)
    (hno : ∀ cfg, o.1 = .sessionOpen cfg → ∀ e, out.2.2 ≠ .inr (.ret .ok e))
    (hnw : ∀ e data, o.1 = .write e data → ∀ err e', out.2.2 = .inr (.ret err e') →
      err ≠ .ok ∧ err ≠ .nvs) : InStep (d.doSection o (callEntry o p) out) := by
  obtain ⟨hopen, hin⟩ := hat.epoch hr h
  have hgo : ∀ cfg, o.1 = .sessionOpen cfg → ∀ pc, out.2.2 ≠ .inl pc := by
    intro cfg hc pc hx
    rcases hat.cases hr with ⟨size, rfl, -, -⟩ | hw | hw | hw | ⟨-, hw⟩
    · rcases hs.goes hx with ⟨e, data, hw⟩ | ⟨e, hw⟩ | ⟨e, r, hw⟩ <;> rw [hc] at hw <;> cases hw
    all_goals rw [hc] at hw; cases hw
  have hp : (d.doSection o (callEntry o p) out).pump = d.pump.after o out.2.2 := rfl
  have ho := opens_section d o p out
  rw [opens_returned hno, List.append_nil] at ho
  have honce : ∀ e, (finishes (sinkLog (d.doSection o (callEntry o p) out).log)).count e ≤
      ((opens (sinkLog d.log)).map (·.2)).count e := by
    intro e
    rcases finishes_callEntry (o := o) (p := p) with hf | ⟨hn, e', hw, hf⟩
    · rw [finishes_section, hf, List.append_nil]
      exact h.once e
    · have hne := (hin (by simp [hw])).2
      have hun := hat.unfinished hne (.inl hn) (by simp [hw])
      have he : e' = d.pump.epoch := by
        rcases hat.cases hr with ⟨_, -, -, hx⟩ | hx | hx | hx | ⟨-, hx⟩ <;> rw [hw] at hx <;>
          cases hx
        rfl
      have hroom := h.room hun
      rw [finishes_section, hf, List.count_append, he]
      by_cases hee : d.pump.epoch = e
      · subst hee
        simp
        omega
      · simpa [hee] using h.once e
  rcases d.pump.after_quiet hgo hno hnw with ⟨he, ha⟩ | ⟨he, hw, hc, hf, ha, hfin⟩
  · refine ⟨fun hx => ?_, fun hx => ?_, fun hx => ?_, ?_, fun hx => ?_⟩
    · exact absurd he hx
    · exact absurd hx ha
    · rw [hp] at hx
      exact absurd (by rw [hx]; trivial) ha
    · rw [ho]
      exact honce
    · exact absurd he hx.1
  · refine ⟨fun hx => ?_, fun hx => ?_, fun hx => ?_, ?_, fun hx => ?_⟩
    · rw [hp, he] at hx
      obtain ⟨cfg, hlast, hfw, hsz, hbw⟩ := h.session hx
      refine ⟨cfg, ?_, ?_, ?_, ?_⟩
      · rw [ho, hp, he]
        exact hlast
      · rw [hp, hw]
        exact hfw
      · exact hsame.size.trans hsz
      · rw [hp, hc, ← hat.counted]
        exact hsame.bytes.trans hbw
    · rw [hp, he]
      exact (hin (ha hx)).2
    · exact absurd hx hf
    · rw [ho]
      exact honce
    · have hne : d.pump.epoch ≠ 0 := he ▸ hx.1
      have hnf : ∀ e, o.1 ≠ .finish e := fun e hw => hx.2 (hfin (.inl ⟨e, hw⟩))
      have hun := hat.unfinished hne (.inr hnf) (fun e r hw => hx.2 (hfin (.inr ⟨e, r, hw⟩)))
      rw [finishes_keep _ _ _ _ hnf, ho, hp, he]
      exact h.room hun

/-- **A section of the sink** keeps the two sides in step. -/
theorem InStep.section (h : InStep d) (hr : (system B).Reach d) (hat : d.AtSection o p)
    (hs : Sect B o p d.sink out) : InStep (d.doSection o (callEntry o p) out) := by
  have hok : SinkOk (placeAt o p) d.sink := hat.placeAt ▸ sinkOk hr
  obtain ⟨op, idf⟩ := o
  rcases hs.counts hok with ⟨cfg, e, ho, hres, -, hsize, hbytes⟩ |
    ⟨e, data, err, ho, herr, hres, hsize, hbytes⟩ | ⟨hsame, hno, hnw⟩
  · obtain rfl : op = .sessionOpen (some cfg) := ho
    exact h.opened hres hsize hbytes
  · obtain rfl : op = .write e (some data) := ho
    exact h.wrote hr hat herr hres hsize hbytes
  · exact h.quiet hr hat hs hsame hno hnw

/-- A step of the pump. -/
theorem InStep.pump {n : Nat} {idf : Idf} (h : InStep d) (hr : (system B).Reach d)
    (hst : (system B).step (.pump n idf) d = some d') : InStep d' := by
  cases step_act hst with
  | take hpc | timesOut hpc | timeoutBack hpc | emptyItem hpc | lazyOpen hpc | unarmed hpc
    | zero hpc | length hpc | zeroBlock hpc =>
    refine h.move rfl rfl rfl rfl ?_ False.elim (by rintro ⟨⟩) (fun hu => ⟨hu.1, ?_⟩)
    · simp [Pump.counted, hpc]
    · rw [hpc]
      exact id
  | timeoutAbort hpc hne | toWrite hpc _ hne =>
    refine h.move rfl rfl rfl rfl ?_ (fun _ => hne) (by rintro ⟨⟩) (fun hu => ⟨hu.1, ?_⟩)
    · simp [Pump.counted, hpc]
    · rw [hpc]
      exact id
  | failBlock => exact h.without rfl rfl id
  | giveBack hpc =>
    refine h.move rfl (by simp) rfl rfl ?_ False.elim (by rintro ⟨⟩) (fun hu => ⟨hu.1, ?_⟩)
    · simp [Pump.counted, hpc]
    · rw [hpc]
      exact id
  | wroteFail hpc h1 h2 =>
    refine h.move rfl (by simp) rfl rfl ?_ (fun _ => h.active (by rw [hpc]; trivial))
      (by rintro ⟨⟩) (fun hu => ⟨hu.1, ?_⟩)
    · simp [Pump.counted, hpc, h1, h2]
    · rw [hpc]
      exact id
  | wroteOk hpc he =>
    refine h.move rfl rfl rfl rfl ?_ (fun _ => h.active (by rw [hpc]; trivial)) (fun hf => ?_)
      (fun hu => ⟨hu.1, ?_⟩)
    · rw [Pump.counted_of_ne (by intro err; dsimp only; split <;> simp)]
      simp [Pump.counted, hpc, he]
    · dsimp only at hf ⊢
      split at hf
      · next hg => exact hg.2
      · cases hf
    · rw [hpc]
      exact id
  | calls hc _ hs => exact h.section (p := none) hr hc hs
  | sections hpc _ hs => exact h.section (p := some _) hr hpc hs

/-- **Every step keeps the pump and the sink in step.** -/
theorem InStep.step (h : InStep d) (hr : (system B).Reach d)
    (hst : (system B).step l d = some d') : InStep d' := by
  by_cases hl : ∃ n idf, l = .pump n idf
  · obtain ⟨n, idf, rfl⟩ := hl
    exact h.pump hr hst
  · obtain ⟨hp, ⟨hs, hlog⟩ | ⟨-, hs, hlog⟩⟩ :=
      nimble_step_sink hst fun n idf he => hl ⟨n, idf, he⟩
    · exact h.frame hp (by rw [hs]; exact ⟨rfl, rfl⟩) (by rw [hlog]) (by rw [hlog])
    · refine h.frame hp (by rw [hs]; exact ⟨rfl, rfl⟩) ?_ ?_
      · rw [hlog, opens_append]
        exact List.append_nil _
      · rw [hlog, finishes_append]
        exact List.append_nil _

theorem InStep.reach (h : (system B).Reach d) : InStep d :=
  h.invariant (I := InStep) (fun _ hs => by cases hs; exact .init)
    (fun _ _ _ hr hi hst => hi.step hr hst)

/-! ## Complete sessions -/

theorem opens_sublist (log : List (SinkEntry Cell)) :
    ((opens log).map (·.2)).Sublist (issued log) := by
  induction log with
  | nil => exact .slnil
  | cons x log ih =>
    have hx : (∃ o cfg e, x = .ret o (.ret .ok (some e)) ∧ openedWith x = some (cfg, e)) ∨
        openedWith x = none := by
      unfold openedWith
      split
      · exact .inl ⟨_, _, _, rfl, rfl⟩
      · exact .inr rfl
    rcases hx with ⟨o, cfg, e, rfl, ho⟩ | ho
    · simpa [opens, ho] using ih
    · have hsub : (issued log).Sublist (issued (x :: log)) := by
        simp only [issued, List.filterMap_cons]
        split
        · exact .refl _
        · exact .cons _ (.refl _)
      simpa [opens, ho] using ih.trans hsub

/-- **The pump finishes complete sessions only.** When it calls `ota_sink_finish(e)`, the latest
successful open has returned `e`, its length is the one of the pump, both sides have counted the
same bytes, and no fewer than that length. There is at most one such call for each time that an
open has returned `e`: at most one, while the epochs have not wrapped. -/
theorem finish_complete (hr : (system B).Reach d) :
    (∀ l d' e idf new, (system B).step l d = some d' →
      sinkLog d'.log = sinkLog d.log ++ .call (.finish e, idf) :: new →
      ∃ cfg, (opens (sinkLog d.log)).getLast? = some (cfg, e) ∧ d.pump.fwLen = cfg.imageSize ∧
        d.sink.sink.imageSize = cfg.imageSize ∧
        d.pump.bytesPumped = d.sink.sink.bytesWritten ∧ cfg.imageSize ≤ d.pump.bytesPumped ∧
        cfg.imageSize ≤ d.sink.sink.bytesWritten) ∧
    (∀ e, (finishes (sinkLog d.log)).count e ≤ (issued (sinkLog d.log)).count e) ∧
    ((issued (sinkLog d.log)).length < 2 ^ 32 →
      ∀ e, (finishes (sinkLog d.log)).count e ≤ 1) := by
  have h := InStep.reach hr
  have honce : ∀ e, (finishes (sinkLog d.log)).count e ≤ (issued (sinkLog d.log)).count e :=
    fun e => Nat.le_trans (h.once e) ((opens_sublist _).count_le e)
  refine ⟨fun l d' e idf new hst hc => ?_, honce, fun hlen e => Nat.le_trans (honce e) ?_⟩
  · rcases d.pump.callOf_cases (callOf_of_called hst hc) with ⟨_, -, ho⟩ | ⟨-, ho⟩ | ⟨hpc, ho⟩ |
      ⟨-, ho⟩ | ⟨-, ho⟩ <;> cases ho
    have hne : d.pump.epoch ≠ 0 := h.active (by rw [hpc]; trivial)
    obtain ⟨cfg, hlast, hfw, hsz, hbw⟩ := h.session hne
    have hcnt : d.pump.counted = d.pump.bytesPumped := Pump.counted_of_ne (by simp [hpc])
    have hle := h.full hpc
    exact ⟨cfg, hlast, hfw, hsz, by omega, by omega, by omega⟩
  · have hnd : (issued (sinkLog d.log)).Nodup := (EpochOk.reach (view_reach hr)).nodup hlen
    exact List.nodup_iff_count.mp hnd e

/-- The steps up to the finish of a session of two bytes. -/
def fullSession : List DevLabel :=
  startCommand 2 :: startCallback ++ wholePacket 0 [1, 2] :: recvCallback ++ pumpSteps 8

theorem finish_complete_fullSession :
    ((system .otaSlots).run fullSession .init).pump.pc = .finishing ∧
    ∃ cfg, (opens (sinkLog ((system .otaSlots).run fullSession .init).log)).getLast? =
      some (cfg, 1) ∧ ((system .otaSlots).run fullSession .init).pump.fwLen = cfg.imageSize ∧
      cfg.imageSize ≤ ((system .otaSlots).run fullSession .init).pump.bytesPumped := by
  obtain ⟨h1, -, -⟩ := finish_complete (Lib.Lts.run_reach (S := system .otaSlots) (.init rfl)
    fullSession)
  obtain ⟨cfg, hl, hf, -, -, hle, -⟩ := h1 (.pump 0 .allOk)
    (((system .otaSlots).run fullSession .init).callSink .otaSlots (.finish 1) .allOk) 1 .allOk []
    rfl rfl
  exact ⟨rfl, cfg, hl, hf, hle⟩

end Device

end BleOta
