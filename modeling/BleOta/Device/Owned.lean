import BleOta.Device.Counts
import BleOta.Sink.Handles

/-!
# The pump and the session that it owns

`Released`: at the top of its loop without an epoch the pump leaves no live session and no
outstanding OTA handle behind.

* `released_run`: that holds, and no open finds the sink busy, in every run where the pump does not
  come to its abort or finish with an invalidated session, where a failed activate is the one of an
  invalidated session, and where no open returns the epoch 0 (`OwnCond`).
* `forgotten`: a run where a new Start invalidates the session: the abort of the pump is stale and
  the handle stays out; and one where `esp_ota_set_boot_partition` fails: the session stays live,
  and the next open is refused as busy.

The invariant (`Owned`): without an epoch the sink has nothing for the pump; with one the session of
the sink is the one of the pump.
-/

namespace BleOta.Device

open Lib (Use)
open Lib.Code (events returned)

/-- At the top of its loop without an epoch the pump owns nothing in the sink. -/
def Released (d : Device) : Prop :=
  d.pump.pc = .receive → d.pump.epoch = 0 →
    otaSinkEpochCurrent d.sink.sink = otaSinkEpochInvalid ∧
      Use.out (uses (events (sinkLog d.log))) = []

/-- No open was refused as busy. -/
def NeverBusy (d : Device) : Prop :=
  ∀ cfg idf e, .ret (.sessionOpen cfg, idf) (.ret .busy e) ∉ sinkLog d.log

/-- The condition of a step of the pump: its abort or finish meets no invalidated session; a failed
activate ends for an invalidated session only; a new epoch is not 0. -/
def OwnCond (B : Board) (d : Device) : DevLabel → Prop
  | .pump _ idf => match d.pump.pc with
    | .finishing | .aborting => d.sink.sink.state ≠ .abortPending
    | .inSink _ (.activateUndo _) => d.sink.sink.sessionLive = false
    | .opening size => ∀ t, B.running.bind B.nextUpdate = some t → size ≤ t.size →
        idf.begin = espOk → d.sink.sink.nextEpoch ≠ 0
    | _ => True
  | _ => True

/-- The invariant (module doc). -/
structure Owned (d : Device) : Prop where
  free : d.pump.epoch = 0 → d.sink.sink.sessionLive = false ∧ d.sink.sink.handle = 0
  same : d.pump.epoch ≠ 0 → d.pump.epoch = d.sink.sink.epoch
  busy : d.pump.Unfinished → d.sink.sink.Busy
  valid : d.pump.pc = .activating → d.sink.sink.state = .validated
  failed : d.pump.pc = .openFailed → d.pump.epoch = 0
  never : NeverBusy d

variable {B : Board} {d d' : Device} {l : DevLabel}

theorem Owned.init : Owned .init :=
  ⟨fun _ => ⟨rfl, rfl⟩, fun h => absurd rfl h, fun h => absurd rfl h.1, by rintro ⟨⟩, by rintro ⟨⟩,
    fun _ _ _ h => by cases h⟩

/-- A step outside of the pump. -/
theorem Owned.frame (h : Owned d) (hp : d'.pump = d.pump)
    (hs : d'.sink = d.sink ∨ d'.sink = invalidate d.sink)
    (hn : ∀ x, x ∈ sinkLog d'.log → x ∈ sinkLog d.log ∨ x = .poke) : Owned d' := by
  have hnever : NeverBusy d' := by
    intro cfg idf e hm
    rcases hn _ hm with hm | hm
    · exact h.never cfg idf e hm
    · cases hm
  rcases hs with hs | hs
  · exact ⟨by rw [hp, hs]; exact h.free, by rw [hp, hs]; exact h.same, by rw [hp, hs]; exact h.busy,
      by rw [hp, hs]; exact h.valid, by rw [hp]; exact h.failed, hnever⟩
  · refine ⟨?_, ?_, ?_, ?_, ?_, hnever⟩
    · rw [hp, hs]
      exact fun he => ⟨rfl, (h.free he).2⟩
    · rw [hp, hs]
      exact h.same
    · rw [hp, hs, invalidate_busy]
      exact h.busy
    · rw [hp, hs, invalidate_state]
      intro hpc
      simp [h.valid hpc]
    · rw [hp]
      exact h.failed

/-- A step of the pump outside of the sink that keeps its epoch. -/
theorem Owned.move (h : Owned d) (hs : d'.sink = d.sink) (hl : sinkLog d'.log = sinkLog d.log)
    (he : d'.pump.epoch = d.pump.epoch) (hf : d'.pump.Unfinished → d.pump.Unfinished)
    (hv : d'.pump.pc ≠ .activating) (ho : d'.pump.pc ≠ .openFailed) : Owned d' where
  free := by rw [he, hs]; exact h.free
  same := by rw [he, hs]; exact h.same
  busy hu := by rw [hs]; exact h.busy (hf hu)
  valid hpc := absurd hpc hv
  failed hpc := absurd hpc ho
  never := by unfold NeverBusy; rw [hl]; exact h.never

/-! ## The sections of the sink -/

variable {o : SinkCall Cell} {p : Option (Pc Cell)} {out : Out Cell}

theorem NeverBusy.section (h : NeverBusy d)
    (ho : ∀ cfg, o.1 = .sessionOpen cfg → ∀ e, out.2.2 ≠ .inr (.ret .busy e)) :
    NeverBusy (d.doSection o (callEntry o p) out) := by
  intro cfg idf e hm
  rw [sinkLog_section, sectionEntries] at hm
  rcases List.mem_append.mp hm with hm | hm
  · exact h cfg idf e hm
  rcases List.mem_append.mp hm with hm | hm
  · cases p with
    | none => cases List.mem_singleton.mp hm
    | some => cases hm
  rcases List.mem_append.mp hm with hm | hm
  · obtain ⟨ev, -, he⟩ := List.mem_map.mp hm
    cases he
  · rcases hr : out.2.2 with pc | r <;> rw [hr] at hm
    · cases hm
    · cases List.mem_singleton.mp hm
      exact ho cfg rfl e hr

/-- The open of the pump: it has nothing in the sink. -/
theorem Owned.opens {idf : Idf} {size : Nat} (h : Owned d) (hr : (system B).Reach d)
    (hpc : d.pump.pc = .opening size)
    (hc : ∀ t, B.running.bind B.nextUpdate = some t → size ≤ t.size → idf.begin = espOk →
      d.sink.sink.nextEpoch ≠ 0)
    (hout : otaSinkEnter B (.sessionOpen (some ⟨size, false⟩)) idf d.sink = out)
    (hs : Sect B (.sessionOpen (some ⟨size, false⟩), idf) none d.sink out) :
    Owned (d.doSection (.sessionOpen (some ⟨size, false⟩), idf)
      (callEntry (.sessionOpen (some ⟨size, false⟩), idf) p) out) := by
  obtain ⟨hl, hh⟩ := h.free (lazy_epoch hr (by rw [hpc]; trivial))
  have he : d.pump.epoch = 0 := lazy_epoch hr (by rw [hpc]; trivial)
  have hset : settleAbort d.sink.sink = (d.sink.sink, none) := by
    have hidle : d.sink.sink.handle ≠ 0 ↔ d.sink.sink.Busy := by
      have hpl := (sinkOk hr).place
      simp only [place, hpc] at hpl
      exact hpl
    rcases settleAbort_cases d.sink.sink with ⟨-, hx⟩ | ⟨-, hx, -⟩ | ⟨hst, -, -⟩
    · exact hx
    · exact absurd hh hx
    · exact absurd hh (hidle.mpr (.inr hst))
  have hnb : ∀ e, out.2.2 ≠ .inr (.ret .busy e) :=
    hout ▸ open_not_busy _ idf (by rw [hset]; exact hl)
  have hnever := h.never.section (o := (.sessionOpen (some ⟨size, false⟩), idf)) (p := p)
    (fun _ _ => hnb)
  -- The open fails: the pump waits with its item, and the sink is as before.
  have hfail : ∀ err, out.2.2 = .inr (.ret err none) → err ≠ .ok →
      out.1.sink.sessionLive = false → out.1.sink.handle = 0 →
      Owned (d.doSection (.sessionOpen (some ⟨size, false⟩), idf)
        (callEntry (.sessionOpen (some ⟨size, false⟩), idf) p) out) := by
    intro err hres hne hlive hhd
    have hp : (d.doSection (.sessionOpen (some ⟨size, false⟩), idf)
        (callEntry (.sessionOpen (some ⟨size, false⟩), idf) p) out).pump =
        { d.pump with pc := .openFailed } := by
      show d.pump.after _ out.2.2 = _
      rw [hres]
      simp [Pump.after, hne]
    refine ⟨fun _ => ⟨hlive, hhd⟩, fun hx => ?_, fun hx => ?_, fun hx => ?_, fun _ => ?_, hnever⟩
    · rw [hp] at hx
      exact absurd he hx
    · rw [hp] at hx
      exact absurd he hx.1
    · rw [hp] at hx
      cases hx
    · rw [hp]
      exact he
  cases hs with
  | refused h1 => exact hfail _ rfl h1 hl hh
  | notOpened _ h1 => exact hfail _ rfl h1 (by rw [hset]; exact hl) (by rw [hset]; exact hh)
  | beginFails => exact hfail _ rfl (by simp) (by rw [hset]; exact hl) rfl
  | begins ho _ ht _ hfit hb =>
    cases ho
    have hne : (settleAbort d.sink.sink).1.nextEpoch ≠ 0 := by
      rw [hset]
      exact hc _ ht hfit hb
    refine ⟨fun hx => absurd hx hne, fun _ => rfl, fun _ => .inl rfl, fun hx => ?_, fun hx => ?_,
      hnever⟩
    · simp [doSection, Pump.after] at hx
      split at hx <;> cases hx
    · simp [doSection, Pump.after] at hx
      split at hx <;> cases hx
  | writes ho | finishes ho | activates ho | aborts ho | drops ho => cases ho

/-- A section after which the pump has the same session. -/
theorem Owned.goes (h : Owned d) (hno : ∀ cfg, o.1 ≠ .sessionOpen cfg)
    (he : (d.pump.after o out.2.2).epoch = d.pump.epoch) (hne : d.pump.epoch ≠ 0)
    (hep : out.1.sink.epoch = d.sink.sink.epoch)
    (hb : (d.pump.after o out.2.2).Unfinished → out.1.sink.Busy)
    (hv : (d.pump.after o out.2.2).pc = .activating → out.1.sink.state = .validated)
    (hf : (d.pump.after o out.2.2).pc ≠ .openFailed) :
    Owned (d.doSection o (callEntry o p) out) where
  free hx := absurd (he ▸ hx) hne
  same _ := (he.trans (h.same hne)).trans hep.symm
  busy := hb
  valid := hv
  failed hx := absurd hx hf
  never := h.never.section fun cfg ho => absurd ho (hno cfg)

/-- A section after which the pump has no session. -/
theorem Owned.drops (h : Owned d) (hno : ∀ cfg, o.1 ≠ .sessionOpen cfg)
    (hp : d.pump.after o out.2.2 = d.pump.reset) (hl : out.1.sink.sessionLive = false)
    (hh : out.1.sink.handle = 0) : Owned (d.doSection o (callEntry o p) out) := by
  have hp' : (d.doSection o (callEntry o p) out).pump = d.pump.reset := hp
  refine ⟨fun _ => ⟨hl, hh⟩, fun hx => ?_, fun hx => ?_, fun hx => ?_, fun hx => ?_,
    h.never.section fun cfg ho => absurd ho (hno cfg)⟩
  · rw [hp'] at hx
    exact absurd rfl hx
  · rw [hp'] at hx
    exact absurd rfl hx.1
  · rw [hp'] at hx
    cases hx
  · rw [hp'] at hx
    cases hx

/-- The session of the pump is live where the sink writes it. -/
theorem Owned.writing (h : Owned d) (hr : (system B).Reach d) (hu : d.pump.Unfinished)
    (hst : d.sink.sink.state ≠ .abortPending) :
    d.sink.sink.sessionLive = true ∧ d.pump.epoch = d.sink.sink.epoch ∧
      d.sink.sink.state = .writing := by
  have hw : d.sink.sink.state = .writing := (h.busy hu).resolve_right hst
  exact ⟨(sinkOk hr).live hw, h.same hu.1, hw⟩

/-- The first section of a call of the pump. -/
theorem Owned.calls {op : Op Cell} {idf : Idf} {n : Nat} (h : Owned d) (hr : (system B).Reach d)
    (hc : OwnCond B d (.pump n idf)) (hcall : d.pump.callOf d.pump.pc = some op)
    (hout : otaSinkEnter B op idf d.sink = out) (hs : Sect B (op, idf) none d.sink out) :
    Owned (d.doSection (op, idf) (callEntry (op, idf) none) out) := by
  have hact := (InStep.reach hr).active
  have hidle : d.sink.sink.handle ≠ 0 ↔ d.sink.sink.Busy := by
    have hpl := (sinkOk hr).place
    rw [place_of_callOf hcall] at hpl
    exact hpl
  rcases d.pump.callOf_cases hcall with ⟨size, hpc, rfl⟩ | ⟨hpc, rfl⟩ | ⟨hpc, rfl⟩ | ⟨hpc, rfl⟩ |
    ⟨hpc, rfl⟩
  · simp only [OwnCond, hpc] at hc
    exact h.opens hr hpc hc hout hs
  · have hne : d.pump.epoch ≠ 0 := hact (by rw [hpc]; trivial)
    have hb : d.sink.sink.Busy := h.busy ⟨hne, by rw [hpc]; exact id⟩
    cases hs with
    | refused => exact h.goes (by simp) rfl hne rfl (fun _ => hb) (by rintro ⟨⟩) (by rintro ⟨⟩)
    | writes => exact h.goes (by simp) rfl hne rfl (fun _ => hb) (by rintro ⟨⟩) (by rintro ⟨⟩)
    | notOpened ho | beginFails ho | begins ho | finishes ho | activates ho | aborts ho
      | drops ho => cases ho
  · have hne : d.pump.epoch ≠ 0 := hact (by rw [hpc]; trivial)
    simp only [OwnCond, hpc] at hc
    obtain ⟨hl, he, hw⟩ := h.writing hr ⟨hne, by rw [hpc]; exact id⟩ hc
    rw [enter_finish idf hl he hw] at hout
    subst hout
    exact h.goes (by simp) rfl hne rfl (fun hu => absurd (.inl ⟨_, rfl⟩) hu.2) (by rintro ⟨⟩)
      (by rintro ⟨⟩)
  · have hne : d.pump.epoch ≠ 0 := hact (by rw [hpc]; trivial)
    have hv := h.valid hpc
    have hh : d.sink.sink.handle = 0 := by
      by_contra hx
      rcases hidle.mp hx with hb | hb <;> rw [hv] at hb <;> cases hb
    by_cases hl : d.sink.sink.sessionLive = true
    · rw [enter_activate idf hl (h.same hne) hv] at hout
      subst hout
      exact h.goes (by simp) rfl hne rfl (fun hu => absurd (.inr ⟨_, _, rfl⟩) hu.2) (by rintro ⟨⟩)
        (by rintro ⟨⟩)
    · have hnl : NotLive d.sink.sink d.pump.epoch := fun hx => hl hx.1
      rw [hnl.refused .activate idf] at hout
      subst hout
      exact h.drops (by simp) rfl (by simpa using hl) hh
  · have hne : d.pump.epoch ≠ 0 := hact (by rw [hpc]; trivial)
    simp only [OwnCond, hpc] at hc
    obtain ⟨hl, he, hw⟩ := h.writing hr ⟨hne, by rw [hpc]; exact id⟩ hc
    rw [enter_abort idf hl he hw (hidle.mpr (.inl hw))] at hout
    subst hout
    exact h.drops (by simp) rfl rfl rfl

/-- A later section of a call of the pump. -/
theorem Owned.sections {pc : Pc Cell} {idf : Idf} {n : Nat} (h : Owned d) (hr : (system B).Reach d)
    (hc : OwnCond B d (.pump n idf)) (hpc : d.pump.pc = .inSink o pc)
    (hs : Sect B o (some pc) d.sink out) :
    Owned (d.doSection o (callEntry o (some pc)) out) := by
  have hne : d.pump.epoch ≠ 0 := (InStep.reach hr).active (by rw [hpc]; trivial)
  have hpl : PlaceOk (placeAt o (some pc)) d.sink := by
    have := (sinkOk hr).place
    simp only [place, hpc] at this
    exact this
  have hcall := (DevOk.reach hr).call o pc hpc
  have hno : ∀ cfg, o.1 ≠ .sessionOpen cfg := by
    intro cfg ho
    rw [ho] at hcall
    simp at hcall
  -- A write leaves the state of the sink alone.
  have hwrite : ∀ {r}, (∃ e data, o.1 = .write e (some data)) →
      out.1.sink.epoch = d.sink.sink.epoch →
      out.1.sink.state = d.sink.sink.state → out.2.2 = r →
      ((∃ pc', r = .inl pc') ∨ ∃ err e, r = .inr (.ret err e)) →
      Owned (d.doSection o (callEntry o (some pc)) out) := by
    rintro r ⟨e, data, ho⟩ hep hst rfl hr'
    obtain ⟨op, idf⟩ := o
    obtain rfl : op = .write e (some data) := ho
    have hb : d.sink.sink.Busy := h.busy ⟨hne, by
      rw [hpc]
      simp [PumpPc.Finished]⟩
    have hb' : out.1.sink.Busy := by
      rw [Sink.Busy, hst]
      exact hb
    rcases hr' with ⟨pc', hx⟩ | ⟨err, e', hx⟩
    · refine h.goes hno ?_ hne hep (fun _ => hb') ?_ ?_ <;> rw [hx]
      · rfl
      · rintro ⟨⟩
      · rintro ⟨⟩
    · refine h.goes hno ?_ hne hep (fun _ => hb') ?_ ?_ <;> rw [hx]
      · rfl
      · rintro ⟨⟩
      · rintro ⟨⟩
  cases hs with
  | flashFails => exact hwrite ⟨_, _, hpl.1⟩ rfl rfl rfl (.inr ⟨_, _, rfl⟩)
  | flashed => exact hwrite ⟨_, _, hpl.1⟩ rfl rfl rfl (.inl ⟨_, rfl⟩)
  | staleAfter =>
    obtain ⟨⟨data, ho, -⟩, -⟩ := hpl
    exact hwrite ⟨_, data, ho⟩ rfl rfl rfl (.inr ⟨_, _, rfl⟩)
  | accounts =>
    obtain ⟨⟨data, ho, -⟩, -⟩ := hpl
    exact hwrite ⟨_, data, ho⟩ rfl rfl rfl (.inr ⟨_, _, rfl⟩)
  | ended =>
    have ho : o.1 = .finish d.sink.sink.epoch := hpl.1
    exact h.goes hno rfl hne rfl (fun hu => absurd (.inl ⟨_, ho⟩) hu.2) (by rintro ⟨⟩)
      (by rintro ⟨⟩)
  | endFailed =>
    have ho : o.1 = .finish d.sink.sink.epoch := hpl.1
    obtain ⟨op, idf⟩ := o
    obtain rfl : op = .finish _ := ho
    exact h.drops hno rfl rfl hpl.2.1
  | validated =>
    have ho : o.1 = .finish d.sink.sink.epoch := hpl.1
    obtain ⟨op, idf⟩ := o
    obtain rfl : op = .finish _ := ho
    exact h.goes hno rfl hne rfl (fun hu => absurd trivial hu.2) (fun _ => rfl) (by rintro ⟨⟩)
  | bootFailed | booted | cleared =>
    have ho : o.1 = .activate d.sink.sink.epoch _ := hpl.1
    exact h.goes hno rfl hne rfl (fun hu => absurd (.inr ⟨_, _, ho⟩) hu.2) (by rintro ⟨⟩)
      (by rintro ⟨⟩)
  | undone =>
    obtain ⟨⟨r, ho⟩, hh, -⟩ := hpl
    simp only [OwnCond, hpc] at hc
    obtain ⟨op, idf⟩ := o
    obtain rfl : op = .activate _ r := ho
    exact h.drops hno rfl hc hh
  | closed =>
    have ho : o.1 = .activate d.sink.sink.epoch _ := hpl.1
    obtain rfl := activate_restarts hr hpc
    exact h.goes hno rfl hne rfl (fun hu => absurd trivial hu.2) (by rintro ⟨⟩) (by rintro ⟨⟩)

/-- **Every step that meets the condition** keeps the invariant. -/
theorem Owned.step (h : Owned d) (hr : (system B).Reach d) (hc : OwnCond B d l)
    (hst : (system B).step l d = some d') : Owned d' := by
  by_cases hl : ∃ n idf, l = .pump n idf
  · obtain ⟨n, idf, rfl⟩ := hl
    cases step_act hst with
    | take hpc | timesOut hpc | timeoutAbort hpc | timeoutBack hpc | emptyItem hpc | lazyOpen hpc
      | toWrite hpc | unarmed hpc | zero hpc | length hpc | zeroBlock hpc =>
      refine h.move rfl rfl rfl (fun hu => ⟨hu.1, ?_⟩) (by rintro ⟨⟩) (by rintro ⟨⟩)
      rw [hpc]
      exact id
    | giveBack hpc | wroteFail hpc =>
      refine h.move rfl (by simp) rfl (fun hu => ⟨hu.1, ?_⟩) (by rintro ⟨⟩) (by rintro ⟨⟩)
      rw [hpc]
      exact id
    | wroteOk hpc =>
      refine h.move rfl rfl rfl (fun hu => ⟨hu.1, ?_⟩) ?_ ?_
      · rw [hpc]
        exact id
      · dsimp only
        split <;> simp
      · dsimp only
        split <;> simp
    | failBlock hpc =>
      have he := h.failed hpc
      exact h.move rfl rfl he.symm (fun hu => absurd rfl hu.1) (by rintro ⟨⟩) (by rintro ⟨⟩)
    | calls hcall hout hs => exact h.calls hr hc hcall hout hs
    | sections hpc _ hs => exact h.sections hr hc hpc hs
  · obtain ⟨hp, ⟨hs, hlog⟩ | ⟨-, hs, hlog⟩⟩ :=
      nimble_step_sink hst fun n idf he => hl ⟨n, idf, he⟩
    · exact h.frame hp (.inl hs) fun x hx => .inl (hlog ▸ hx)
    · refine h.frame hp (.inr hs) fun x hx => ?_
      rw [hlog] at hx
      exact (List.mem_append.mp hx).imp_right List.mem_singleton.mp

/-- Without an epoch nothing is out. -/
theorem Owned.released (h : Owned d) (hr : (system B).Reach d) : Released d := by
  intro hpc he
  obtain ⟨hl, hh⟩ := h.free he
  refine ⟨by simp [otaSinkEpochCurrent, hl], ?_⟩
  have hpl : d.view.place = .idle := by
    show d.place = .idle
    simp only [place, hpc]
  have hout := (HandleOk.reach (view_reach hr)).linear.out_eq
  rw [hpl] at hout
  refine hout.trans ?_
  show (outHandle (.idle : Lib.Place (SinkCall Cell) (Pc Cell)) d.sink).toList = []
  rw [outHandle_none (by simp) hh]
  rfl

/-- **The pump forgets no session** in a run whose steps meet `OwnCond`. -/
theorem released_run (h : (system B).Run (OwnCond B) .init d) : Released d ∧ NeverBusy d := by
  have hi : (system B).Reach d ∧ Owned d :=
    h.invariant (I := fun d => (system B).Reach d ∧ Owned d)
      (fun l s s' hi hc hst => ⟨.step l hi.1 hst, hi.2.step hi.1 hc hst⟩) ⟨.init rfl, .init⟩
  exact ⟨hi.2.released hi.1, hi.2.never⟩

theorem released_run_writtenSector :
    (system .otaSlots).Run (OwnCond .otaSlots) .init ((system .otaSlots).run writtenSector .init) ∧
      Released ((system .otaSlots).run writtenSector .init) := by
  have hm : (system .otaSlots).Meets (OwnCond .otaSlots) writtenSector .init :=
    ⟨trivial, _, rfl, trivial, _, rfl, trivial, _, rfl, trivial, _, rfl, trivial, _, rfl, trivial,
      _,
      rfl, trivial, _, rfl, trivial, _, rfl, trivial, _, rfl, trivial, _, rfl, trivial, _, rfl,
      fun _ _ _ _ => by decide, _, rfl, trivial, _, rfl, trivial, _, rfl, trivial⟩
  have hr : (system .otaSlots).Run (OwnCond .otaSlots) .init
      ((system .otaSlots).run writtenSector .init) := Lib.Lts.exec_run hm rfl
  exact ⟨hr, (released_run hr).1⟩

/-- The pump has written a sector of the first Start when the second Start invalidates the session;
the write of the next sector and the abort after it are stale. -/
def staleAbort : List DevLabel :=
  startCommand 8 :: startCallback ++ wholePacket 0 [1, 2] :: recvCallback ++ pumpSteps 8 ++
    startCommand 8 :: startCallback ++ wholePacket 0 [3, 4] :: recvCallback ++ pumpSteps 5

/-- All bytes are written and validated, `esp_ota_set_boot_partition` fails; another sector
follows. -/
def failedActivate : List DevLabel :=
  startCommand 2 :: startCallback ++ wholePacket 0 [1, 2] :: recvCallback ++ pumpSteps 8 ++
    List.replicate 6 (.pump 4095 { Idf.allOk with setBoot := -1 }) ++
    wholePacket 1 [3, 4] :: recvCallback ++ pumpSteps 4

/-- The pump forgets a session: its handle stays out, or the session stays live and the next open is
refused as busy. -/
theorem forgotten : (¬∀ d, (system .otaSlots).Reach d → Released d) ∧
    ¬∀ d, (system .otaSlots).Reach d → NeverBusy d := by
  refine ⟨fun h => ?_, fun h => ?_⟩
  · have hrel := h _ (Lib.Lts.run_reach (.init rfl) staleAbort) rfl rfl
    have hout : Use.out (uses (events (sinkLog ((system .otaSlots).run staleAbort .init).log))) =
        [1] := rfl
    rw [hout] at hrel
    cases hrel.2
  · have hnb := h _ (Lib.Lts.run_reach (.init rfl) failedActivate)
    have hlog : (sinkLog ((system .otaSlots).run failedActivate .init).log).getLast? =
        some (.ret (.sessionOpen (some ⟨2, false⟩), .allOk) (.ret .busy none)) := rfl
    exact hnb _ _ _ (List.mem_of_getLast? hlog)

end BleOta.Device
