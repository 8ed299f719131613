import BleOta.Device.Transfer
import BleOta.Lib.Channel

/-!
# Every byte that the ring takes has one fate

From the acceptance by `xRingbufferSend` on, a byte waits in the ring, is in an item that a task has
in its hands, or has its fate: an item is written (`ota_sink_write` has returned `OK` or `NVS`),
dropped by the pump, or flushed by a Start callback. `Device.channel` is the transport as a
`Lib.Channel` of these fates.

* `step_moved`: a step of the device is a step of the channel, or none; so the reachable states of
  the device are reachable states of the channel (`channel_reach`).
* `bytes_conserved`: that, and in every reachable state what the ring accepted is what has a fate,
  what is in the hands, what waits, in this order; `esp_ota_write` gets each accepted byte at most
  once and in order; the bytes with the fate `written` were in successful calls of it.
-/

namespace BleOta

open Lib (Channel Ring)

/-- How an item leaves the transport. -/
inductive Fate where
  | written
  | dropped
  | flushed
  deriving DecidableEq, Repr

/-- The write with the error code `err` is counted by the sink. -/
def OtaSinkErr.Counted (err : OtaSinkErr) : Prop := err = .ok ∨ err = .nvs

instance (err : OtaSinkErr) : Decidable err.Counted := inferInstanceAs (Decidable (_ ∨ _))

/-- The bytes that get their fate by an entry of the history. -/
def DevEv.fates : DevEv → List (Cell × Fate)
  | .flushed data => data.map (·, .flushed)
  | .dropped data => data.map (·, .dropped)
  | .sink (.ret (.write _ (some data), _) (.ret err _)) =>
    if err.Counted then data.map (·, .written) else []
  | _ => []

/-- The bytes that `esp_ota_write` gets. -/
def DevEv.flashes : DevEv → List Cell
  | .sink (.ev (.otaWrite _ data _)) => data
  | _ => []

/-- The bytes that it writes. -/
def DevEv.burns : DevEv → List Cell
  | .sink (.ev (.otaWrite _ data err)) => if err = espOk then data else []
  | _ => []

/-- The item of the pump, until it has its fate. -/
def Pump.hand (p : Pump) : List Cell :=
  match p.pc with
  | .wrote err => if err.Counted then [] else p.data
  | _ => p.data

/-- The item, if the pump may have passed it to `esp_ota_write` and it has no fate. -/
def Pump.tried (p : Pump) : List Cell :=
  match p.pc with
  | .inSink _ (.writeAccount ..) => p.data
  | .wrote err => if err.Counted then [] else p.data
  | _ => []

/-- The item, if it is in the flash and not counted. -/
def Pump.burnt (p : Pump) : List Cell :=
  match p.pc with
  | .inSink _ (.writeAccount ..) => p.data
  | _ => []

/-- The item of `ringbuf_flush`. -/
def NimblePc.hand : NimblePc → List Cell
  | .startReturn item => item
  | _ => []

namespace Device

/-- The bytes that `f` finds in a history. -/
def gather {β : Type} (f : DevEv → List β) (log : List (Nat × DevEv)) : List β :=
  log.flatMap (f ·.2)

/-- The bytes that the ring has taken. -/
def accepted (d : Device) : List Cell := gather DevEv.accepts d.log

/-- The bytes with a fate. -/
def fates (d : Device) : List (Cell × Fate) := gather DevEv.fates d.log

/-- The bytes that `esp_ota_write` has got. -/
def flashedAll (d : Device) : List Cell := gather DevEv.flashes d.log

/-- The bytes that it has written. -/
def burned (d : Device) : List Cell := gather DevEv.burns d.log

/-- The bytes in the hands of the two tasks. -/
def hand (d : Device) : List Cell := d.nimble.hand ++ d.pump.hand

/-- The transport as a channel. -/
def channel (d : Device) : Channel Cell Fate := ⟨d.accepted, d.fates, d.hand ++ d.ring.queue⟩

variable {B : Board} {d d' : Device} {l : DevLabel}

theorem gather_emit {β : Type} (f : DevEv → List β) (es : List DevEv) :
    gather f (d.emit es).log = gather f d.log ++ es.flatMap f := by
  rw [emit_log, gather, List.flatMap_append, List.flatMap_map]
  rfl

/-- An answer has no bytes of the ring. -/
theorem flatMap_notified {β : Type} {f : DevEv → List β} (hf : ∀ x y, f (.notify x y) = [])
    (c : OtaChar) (frame sector : List UInt8) : (d.notified c frame sector).flatMap f = [] := by
  refine List.flatMap_eq_nil_iff.mpr fun e he => ?_
  obtain ⟨x, -, rfl⟩ := List.mem_map.mp he
  exact hf x sector

/-- The parts of a device that the fates of its bytes are about. -/
structure SameBytes (d d' : Device) : Prop where
  channel : d'.channel = d.channel
  flashed : d'.flashedAll = d.flashedAll
  burned : d'.burned = d.burned

/-- A step that neither takes nor returns bytes. -/
theorem SameBytes.of_emit (es : List DevEv) (hl : d'.log = (d.emit es).log)
    (hq : d'.hand ++ d'.ring.queue = d.hand ++ d.ring.queue)
    (ha : es.flatMap DevEv.accepts = []) (hf : es.flatMap DevEv.fates = [])
    (hw : es.flatMap DevEv.flashes = []) (hb : es.flatMap DevEv.burns = []) :
    SameBytes d d' := by
  refine ⟨?_, ?_, ?_⟩
  · simp only [Device.channel, accepted, fates, hl, gather_emit, ha, hf, hq, List.append_nil]
  · simp only [flashedAll, hl, gather_emit, hw, List.append_nil]
  · simp only [Device.burned, hl, gather_emit, hb, List.append_nil]

theorem SameBytes.of_log (hl : d'.log = d.log)
    (hq : d'.hand ++ d'.ring.queue = d.hand ++ d.ring.queue) : SameBytes d d' :=
  .of_emit [] (by rw [hl, emit_log, List.map_nil, List.append_nil]) hq rfl rfl rfl rfl

/-- Answers only. -/
theorem SameBytes.of_notified (es : List DevEv) (hl : d'.log = (d.emit es).log)
    (hq : d'.hand ++ d'.ring.queue = d.hand ++ d.ring.queue)
    (he : ∀ e ∈ es, (∃ x y, e = .notify x y) ∨ ∃ x, e = .refused x) : SameBytes d d' := by
  have hnil {β : Type} {f : DevEv → List β} (h₁ : ∀ x y, f (.notify x y) = [])
      (h₂ : ∀ x, f (.refused x) = []) : es.flatMap f = [] := by
    refine List.flatMap_eq_nil_iff.mpr fun e hm => ?_
    rcases he e hm with ⟨x, y, rfl⟩ | ⟨x, rfl⟩
    · exact h₁ x y
    · exact h₂ x
  exact .of_emit es hl hq (hnil (fun _ _ => rfl) fun _ => rfl) (hnil (fun _ _ => rfl) fun _ => rfl)
    (hnil (fun _ _ => rfl) fun _ => rfl) (hnil (fun _ _ => rfl) fun _ => rfl)

/-- The items are in the hands of one task at a time. -/
theorem DevOk.hand_eq (h : DevOk d) (hd : d.pump.data ≠ []) : d.nimble.hand = [] := by
  cases hn : d.nimble with
  | startReturn item => exact absurd (h.flush item hn).2.2 hd
  | _ => rfl

theorem Pump.hand_nil {p : Pump} (h : p.data = []) : p.hand = [] := by
  unfold Pump.hand
  split
  · split
    · rfl
    · exact h
  · exact h

theorem tried_nil {p : Pump} (h : p.data = []) : p.tried = [] ∧ p.burnt = [] := by
  refine ⟨?_, ?_⟩
  · unfold Pump.tried
    split
    · exact h
    · split
      · rfl
      · exact h
    · rfl
  · unfold Pump.burnt
    split
    · exact h
    · rfl

/-- Nothing is in the hands when a receive succeeds. -/
theorem DevOk.hand_free (h : DevOk d) (hf : d.ring.held = none) : d.hand = [] := by
  have hz : d.pump.data = [] := by
    by_contra hd
    rw [h.pump hd] at hf
    cases hf
  have hn : d.nimble.hand = [] := by
    cases hn : d.nimble with
    | startReturn item =>
      rw [(h.flush item hn).1] at hf
      cases hf
    | _ => rfl
  rw [hand, hn, Pump.hand_nil hz, List.append_nil]

/-! ## A section of the sink -/

/-- The call `o` of the sink returns a write that is counted. -/
def Settles (o : SinkCall Cell) (r : Pc Cell ⊕ Ret) : Prop :=
  ∃ e data err e', o.1 = .write e data ∧ r = .inr (.ret err e') ∧ err.Counted

/-- The bytes that the events of a section pass to `esp_ota_write`. -/
def tries (es : List (Ev Cell)) : List Cell :=
  es.flatMap fun e => (DevEv.sink (.ev e)).flashes

/-- The bytes that it writes. -/
def wrote (es : List (Ev Cell)) : List Cell := es.flatMap fun e => (DevEv.sink (.ev e)).burns

/-- The sections with `esp_ota_write`, the ones after it, and the others. -/
inductive Writes (o : SinkCall Cell) (p : Option (Pc Cell)) : Out Cell → Prop
  | fails {s es e h data} : p = some (.writeFlash e h data) → tries es = data → wrote es = [] →
      Writes o p (s, es, .inr (.ret .writeFail none))
  | flashed {s es e h data} : p = some (.writeFlash e h data) → tries es = data →
      wrote es = data → Writes o p (s, es, .inl (.writeAccount e data.length))
  | counts {s es e len err} : p = some (.writeAccount e len) → tries es = [] → wrote es = [] →
      err.Counted → Writes o p (s, es, .inr (.ret err none))
  | stale {s es e len} : p = some (.writeAccount e len) → tries es = [] → wrote es = [] →
      Writes o p (s, es, .inr (.ret .sessionStale none))
  | other {s es r} : tries es = [] → wrote es = [] → ¬Settles o r →
      (∀ e len, p ≠ some (.writeAccount e len)) → (∀ e len, r ≠ .inl (.writeAccount e len)) →
      Writes o p (s, es, r)

theorem not_settles {o : SinkCall Cell} {r : Pc Cell ⊕ Ret}
    (h : (∀ e data, o.1 ≠ .write e data) ∨ ∀ err e', r = .inr (.ret err e') → ¬err.Counted) :
    ¬Settles o r := by
  rintro ⟨e, data, err, e', ho, hr, he⟩
  rcases h with h | h
  · exact h e data ho
  · exact h err e' hr he

/-- **Every section** is one of these. -/
theorem writes_of_sect {o : SinkCall Cell} {p : Option (Pc Cell)} {s : SinkSt} {out : Out Cell}
    (hs : Sect B o p s out) (hok : SinkOk (placeAt o p) s) : Writes o p out := by
  have hnone (hp : ∀ e h data, p ≠ some (.writeFlash e h data)) :
      tries out.2.1 = [] ∧ wrote out.2.1 = [] := by
    have hno (ev : Ev Cell) (he : ev ∈ out.2.1) (h data err) : ev ≠ .otaWrite h data err := by
      rintro rfl
      obtain ⟨⟨e, hpc⟩, -⟩ := hs.otaWrite he
      exact hp e h data hpc
    constructor <;> refine List.flatMap_eq_nil_iff.mpr fun ev he => ?_ <;> cases ev <;>
      first | rfl | exact absurd rfl (hno _ he _ _ _)
  have hpl := hok.place
  cases hs with
  | flashFails hw =>
    refine .fails rfl (by simp [tries, DevEv.flashes, sinkFireError]) ?_
    simp [wrote, DevEv.burns, sinkFireError, hw]
  | flashed => exact .flashed rfl (by simp [tries, DevEv.flashes]) (by simp [wrote, DevEv.burns])
  | accounts _ _ _ _ he =>
    obtain ⟨h₁, h₂⟩ := hnone (by simp)
    exact .counts rfl h₁ h₂ he
  | refused h₁ h₂ =>
    obtain ⟨ht, hw⟩ := hnone (by simp)
    refine .other ht hw (not_settles (.inr fun err e' hr => ?_)) (by simp) (by simp)
    cases hr
    exact not_or.mpr ⟨h₁, h₂⟩
  | staleAfter =>
    obtain ⟨ht, hw⟩ := hnone (by simp)
    exact .stale rfl ht hw
  | endFailed | undone =>
    obtain ⟨ht, hw⟩ := hnone (by simp)
    refine .other ht hw (not_settles (.inr fun err e' hr => ?_)) (by simp) (by simp)
    cases hr
    decide
  | notOpened ho | beginFails ho | begins ho | aborts ho | drops ho =>
    obtain ⟨ht, hw⟩ := hnone (by simp)
    exact .other ht hw (not_settles (.inl (by simp [ho]))) (by simp) (by simp)
  | validated =>
    obtain ⟨ht, hw⟩ := hnone (by simp)
    have ho : o.1 = .finish s.sink.epoch := hpl.1
    exact .other ht hw (not_settles (.inl (by simp [ho]))) (by simp) (by simp)
  | @closed r =>
    obtain ⟨ht, hw⟩ := hnone (by simp)
    have ho : o.1 = .activate s.sink.epoch r := hpl.1
    exact .other ht hw (not_settles (.inl (by simp [ho]))) (by simp)
      (by split <;> simp)
  | writes | finishes | ended | activates | bootFailed | booted | cleared =>
    obtain ⟨ht, hw⟩ := hnone (by simp)
    exact .other ht hw (not_settles (.inr fun _ _ hr => by cases hr)) (by simp) (by simp)

/-- The entries of a section, for a function of entries that takes nothing from a call. -/
theorem gather_section {β : Type} {f : DevEv → List β} {o : SinkCall Cell} {out : Out Cell}
    {es : List (SinkEntry Cell)} (hes : ∀ e ∈ es, f (.sink e) = []) :
    gather f (d.doSection o es out).log = gather f d.log ++
      (out.2.1.flatMap (fun e => f (.sink (.ev e))) ++
        (Lib.Code.returned o out.2.2).flatMap fun e => f (.sink e)) := by
  refine (gather_emit (d := d) f ((es ++ sectionEntries o out).map .sink)).trans ?_
  simp [sectionEntries, List.flatMap_map, List.flatMap_eq_nil_iff.mpr hes]

theorem returned_fates {o : SinkCall Cell} {r : Pc Cell ⊕ Ret} (h : ¬Settles o r) :
    (Lib.Code.returned o r : List (SinkEntry Cell)).flatMap
      (fun e => (DevEv.sink e).fates) = [] := by
  obtain ⟨op, idf⟩ := o
  rcases r with pc | ⟨err, e'⟩ | _
  · rfl
  · cases op with
    | write e data =>
      have hc : ¬err.Counted := fun hc => h ⟨e, data, err, e', rfl, rfl, hc⟩
      cases data <;> simp [Lib.Code.returned, DevEv.fates, hc]
    | _ => rfl
  · cases op with
    | write e data => cases data <;> rfl
    | _ => rfl

/-- Only a write takes the pump to `wrote`. -/
theorem after_wrote {p : Pump} {o : SinkCall Cell} {r : Pc Cell ⊕ Ret} {err : OtaSinkErr}
    (h : (p.after o r).pc = .wrote err) : ∃ e data e', o.1 = .write e data ∧
      r = .inr (.ret err e') := by
  obtain ⟨op, idf⟩ := o
  rcases r with pc | ⟨err', e'⟩ | _
  · cases h
  · cases op with
    | write e data =>
      cases h
      exact ⟨e, data, e', rfl, rfl⟩
    | sessionOpen cfg =>
      simp only [Pump.after] at h
      by_cases he : err' = .ok <;> by_cases hz : e'.getD 0 = 0 <;> simp [he, hz] at h
    | finish => by_cases he : err' = .ok <;> simp [Pump.after, he, Pump.reset] at h
    | activate | sessionAbort => cases h
  · cases h

theorem after_hand {p : Pump} {o : SinkCall Cell} {r : Pc Cell ⊕ Ret} (h : ¬Settles o r) :
    (p.after o r).hand = p.data := by
  unfold Pump.hand
  split
  next err hpc =>
    obtain ⟨e, data, e', ho, hr⟩ := after_wrote hpc
    rw [if_neg fun hc => h ⟨e, data, err, e', ho, hr, hc⟩, Pump.after_data]
  · exact Pump.after_data ..

theorem after_burnt {p : Pump} {o : SinkCall Cell} {r : Pc Cell ⊕ Ret}
    (h : ∀ e len, r ≠ .inl (.writeAccount e len)) : (p.after o r).burnt = [] := by
  unfold Pump.burnt
  split
  next o' e len hpc =>
    rcases r with pc | r
    · cases hpc
      exact absurd rfl (h e len)
    · have hd := doSection_inr (d := { Device.init with pump := p }) o []
        (show (SinkSt.init, [], Sum.inr r).2.2 = .inr r from rfl) o' (.writeAccount e len)
      exact absurd hpc hd
  · rfl

/-! ## The invariant -/

/-- `esp_ota_write` has got, in order, a part of the bytes with a fate and of the item that the pump
tried; what is counted, and the item that is burnt, it has written. -/
structure BytesOk (d : Device) : Prop where
  tried : d.flashedAll.Sublist (d.fates.map (·.1) ++ d.pump.tried)
  burnt : (Channel.ofFate .written d.fates ++ d.pump.burnt).Sublist d.burned

/-- A step from `d` to `d'` is one of the channel or none, and keeps the invariant. -/
structure Moved (d d' : Device) : Prop where
  channel : d'.channel = d.channel ∨ ∃ m, d'.channel = Channel.move m d.channel
  ok : BytesOk d → BytesOk d'

theorem SameBytes.fates_eq (h : SameBytes d d') : d'.fates = d.fates :=
  congrArg Channel.fates h.channel

/-- A step that neither takes nor returns bytes; the pump may begin to try its item. -/
theorem SameBytes.moved (h : SameBytes d d') (ht : d.pump.tried = [] ∨ d'.pump.tried = d.pump.tried)
    (hb : d'.pump.burnt = [] ∨ d'.pump.burnt = d.pump.burnt) : Moved d d' where
  channel := .inl h.channel
  ok hk := by
    refine ⟨?_, ?_⟩
    · rw [h.flashed, h.fates_eq]
      rcases ht with ht | ht
      · have := hk.tried
        rw [ht, List.append_nil] at this
        exact this.trans (List.sublist_append_left _ _)
      · rw [ht]
        exact hk.tried
    · rw [h.burned, h.fates_eq]
      rcases hb with hb | hb
      · rw [hb, List.append_nil]
        exact (List.sublist_append_left _ _).trans hk.burnt
      · rw [hb]
        exact hk.burnt

/-- A step outside of the pump that neither takes nor returns bytes. -/
theorem SameBytes.frame (h : SameBytes d d') (hp : d'.pump = d.pump) : Moved d d' :=
  h.moved (.inr (by rw [hp])) (.inr (by rw [hp]))

/-- An item is lost: flushed, or dropped by the pump that may have tried it. -/
theorem Moved.lost {e : DevEv} {item : List Cell} {f : Fate}
    (he : e = .dropped item ∧ f = .dropped ∨ e = .flushed item ∧ f = .flushed)
    (hl : d'.log = (d.emit [e]).log)
    (hq : d.hand ++ d.ring.queue = item ++ (d'.hand ++ d'.ring.queue))
    (ht : d.pump.tried.Sublist item) (ht' : d'.pump.tried = []) (hb : d'.pump.burnt = []) :
    Moved d d' := by
  have hfates : d'.fates = d.fates ++ item.map (·, f) := by
    rw [fates, fates, hl, gather_emit]
    rcases he with ⟨rfl, rfl⟩ | ⟨rfl, rfl⟩ <;> simp [DevEv.fates]
  have hkeep {β : Type} {g : DevEv → List β} (hg : g e = []) :
      gather g d'.log = gather g d.log := by
    rw [hl, gather_emit, List.flatMap_singleton, hg, List.append_nil]
  have hacc : d'.accepted = d.accepted := hkeep (by rcases he with ⟨rfl, -⟩ | ⟨rfl, -⟩ <;> rfl)
  have hflash : d'.flashedAll = d.flashedAll :=
    hkeep (by rcases he with ⟨rfl, -⟩ | ⟨rfl, -⟩ <;> rfl)
  have hburn : d'.burned = d.burned := hkeep (by rcases he with ⟨rfl, -⟩ | ⟨rfl, -⟩ <;> rfl)
  have hf : f ≠ .written := by rcases he with ⟨-, rfl⟩ | ⟨-, rfl⟩ <;> decide
  refine ⟨.inr ⟨.take item.length f, ?_⟩, fun hk => ⟨?_, ?_⟩⟩
  · simp only [Device.channel, hfates, hacc, hq, Channel.move, List.take_left, List.drop_left]
  · have hitem : (item.map (·, f)).map (·.1) = item := by simp [Function.comp_def]
    rw [hflash, hfates, ht', List.append_nil, List.map_append, hitem]
    exact hk.tried.trans (ht.append_left _)
  · rw [hburn, hfates, hb, List.append_nil, Channel.ofFate_append, Channel.ofFate_map, if_neg hf,
      List.append_nil]
    exact (List.sublist_append_left _ _).trans hk.burnt

/-- The ring takes bytes. -/
theorem Moved.sent (xs : List Cell) (ha : d'.accepted = d.accepted ++ xs)
    (hf : d'.fates = d.fates) (hw : d'.flashedAll = d.flashedAll) (hb : d'.burned = d.burned)
    (hq : d'.hand ++ d'.ring.queue = d.hand ++ d.ring.queue ++ xs) (hp : d'.pump = d.pump) :
    Moved d d' := by
  refine ⟨.inr ⟨.send xs, ?_⟩, fun hk => ⟨?_, ?_⟩⟩
  · simp only [Device.channel, Channel.move, ha, hf, hq]
  · rw [hw, hf, hp]
    exact hk.tried
  · rw [hb, hf, hp]
    exact hk.burnt

/-- Inside a write the pump writes its item. -/
theorem write_item {o : SinkCall Cell} {pc : Pc Cell} {e : Nat} {data : Option (List Cell)}
    (h : DevOk d) (hpc : d.pump.pc = .inSink o pc) (ho : o.1 = .write e data) :
    o.1 = .write d.pump.epoch (some d.pump.data) ∧ d.nimble.hand = [] := by
  refine ⟨?_, h.hand_eq (h.holds.mpr (by rw [hpc]; exact ⟨e, data, ho⟩))⟩
  rcases h.call o pc hpc with hc | hc | hc
  · exact hc
  · rw [ho] at hc; cases hc
  · rw [ho] at hc; cases hc

/-! ## What a section leaves -/

/-- The events of a section, for a function of entries that takes nothing from them. -/
theorem flatMap_events {β : Type} {f : DevEv → List β} (hf : ∀ ev, f (.sink (.ev ev)) = [])
    (evs : List (Ev Cell)) : (evs.flatMap fun e => f (.sink (.ev e))) = [] :=
  List.flatMap_eq_nil_iff.mpr fun ev _ => hf ev

theorem Pump.hand_data {p : Pump} (h : ∀ err, p.pc ≠ .wrote err) : p.hand = p.data := by
  unfold Pump.hand
  split
  next err hpc => exact absurd hpc (h err)
  · rfl

section

variable {o : SinkCall Cell} {p : Option (Pc Cell)} {es : List (SinkEntry Cell)} {out : Out Cell}
  (hes : ∀ e ∈ es, ∃ c, e = .call c)
include hes

theorem gather_calls {β : Type} {f : DevEv → List β} (hf : ∀ c, f (.sink (.call c)) = []) :
    ∀ e ∈ es, f (.sink e) = [] := by
  intro e he
  obtain ⟨c, rfl⟩ := hes e he
  exact hf c

theorem gather_events {β : Type} {f : DevEv → List β} (hf : ∀ c, f (.sink (.call c)) = [])
    (hret : ∀ c r, f (.sink (.ret c r)) = []) : gather f (d.doSection o es out).log =
      gather f d.log ++ out.2.1.flatMap fun e => f (.sink (.ev e)) := by
  rw [gather_section (gather_calls hes hf)]
  cases out.2.2 <;> simp [Lib.Code.returned, hret]

theorem section_accepted : (d.doSection o es out).accepted = d.accepted := by
  refine (gather_events hes (fun _ => rfl) fun _ _ => rfl).trans ?_
  rw [flatMap_events fun _ => rfl, List.append_nil]
  rfl

theorem section_flashedAll :
    (d.doSection o es out).flashedAll = d.flashedAll ++ tries out.2.1 :=
  gather_events hes (fun _ => rfl) fun _ _ => rfl

theorem section_burned : (d.doSection o es out).burned = d.burned ++ wrote out.2.1 :=
  gather_events hes (fun _ => rfl) fun _ _ => rfl

theorem section_fates : (d.doSection o es out).fates = d.fates ++
    (Lib.Code.returned o out.2.2).flatMap fun e => (DevEv.sink e).fates := by
  refine (gather_section (gather_calls hes fun _ => rfl)).trans ?_
  rw [flatMap_events fun _ => rfl, List.nil_append]
  rfl

/-- A section that counts nothing gives no fate. -/
theorem section_fates_kept (hset : ¬Settles o out.2.2) :
    (d.doSection o es out).fates = d.fates := by
  rw [section_fates hes, returned_fates hset, List.append_nil]

/-- A section that counts nothing keeps the channel. -/
theorem section_channel (hhand : d.pump.hand = d.pump.data) (hset : ¬Settles o out.2.2) :
    (d.doSection o es out).channel = d.channel := by
  have hh : (d.doSection o es out).hand = d.hand := by
    show d.nimble.hand ++ (d.pump.after o out.2.2).hand = d.nimble.hand ++ d.pump.hand
    rw [after_hand hset, hhand]
  simp only [channel, section_accepted hes, section_fates_kept hes hset, hh]
  rfl

theorem section_same (hhand : d.pump.hand = d.pump.data) (hset : ¬Settles o out.2.2)
    (ht : tries out.2.1 = []) (hw : wrote out.2.1 = []) : SameBytes d (d.doSection o es out) where
  channel := section_channel hes hhand hset
  flashed := by rw [section_flashedAll hes, ht, List.append_nil]
  burned := by rw [section_burned hes, hw, List.append_nil]

/-- The pump passes its item to `esp_ota_write`, which writes it or not. -/
theorem section_flash (hhand : d.pump.hand = d.pump.data) (hset : ¬Settles o out.2.2)
    (htried : d.pump.tried = []) (hafter : (d.pump.after o out.2.2).tried = d.pump.data)
    (ht : tries out.2.1 = d.pump.data) (hw : wrote out.2.1 = (d.pump.after o out.2.2).burnt) :
    Moved d (d.doSection o es out) := by
  refine ⟨.inl (section_channel hes hhand hset), fun hk => ⟨?_, ?_⟩⟩
  · have := hk.tried
    rw [htried, List.append_nil] at this
    rw [section_flashedAll hes, section_fates_kept hes hset, ht]
    exact hafter ▸ this.append_right _
  · rw [section_burned hes, section_fates_kept hes hset, hw]
    exact ((List.sublist_append_left _ _).trans hk.burnt).append_right _

/-- A write is counted: the item has its fate. -/
theorem section_counted {s : SinkSt} {evs : List (Ev Cell)} {e : Nat} {err : OtaSinkErr}
    (hhand : d.pump.hand = d.pump.data) (hnh : d.nimble.hand = [])
    (ho : o.1 = .write e (some d.pump.data)) (hc : err.Counted)
    (htried : d.pump.tried = d.pump.data) (hburnt : d.pump.burnt = d.pump.data)
    (ht : tries evs = []) (hw : wrote evs = []) :
    Moved d (d.doSection o es (s, evs, .inr (.ret err none))) := by
  obtain ⟨op, idf⟩ := o
  cases ho
  have hf : (d.doSection (.write e (some d.pump.data), idf) es
      (s, evs, .inr (.ret err none))).fates = d.fates ++ d.pump.data.map (·, .written) := by
    rw [section_fates hes]
    simp [Lib.Code.returned, DevEv.fates, hc]
  have hafter : (d.pump.after (.write e (some d.pump.data), idf) (.inr (.ret err none))).hand = [] ∧
      (d.pump.after (.write e (some d.pump.data), idf) (.inr (.ret err none))).tried = [] := by
    simp [Pump.after, Pump.hand, Pump.tried, hc]
  have hpump : (d.doSection (.write e (some d.pump.data), idf) es
      (s, evs, .inr (.ret err none))).pump =
        d.pump.after (.write e (some d.pump.data), idf) (.inr (.ret err none)) := rfl
  refine ⟨.inr ⟨.take d.pump.data.length .written, ?_⟩, fun hk => ⟨?_, ?_⟩⟩
  · have h₁ : (d.doSection (.write e (some d.pump.data), idf) es
        (s, evs, .inr (.ret err none))).hand = [] := by
      show d.nimble.hand ++ (d.doSection _ es _).pump.hand = []
      rw [hpump, hafter.1, hnh, List.append_nil]
    have h₂ : d.hand = d.pump.data := by rw [hand, hnh, hhand, List.nil_append]
    simp only [channel, hf, section_accepted hes, h₁, h₂, Channel.move, List.take_left,
      List.drop_left, List.nil_append]
    rfl
  · have := hk.tried
    rw [htried] at this
    rw [section_flashedAll hes, ht, List.append_nil, hpump, hafter.2, List.append_nil, hf,
      List.map_append]
    simpa [Function.comp_def] using this
  · have := hk.burnt
    rw [hburnt] at this
    rw [section_burned hes, hw, List.append_nil, hpump, after_burnt (by simp), List.append_nil, hf,
      Channel.ofFate_append, Channel.ofFate_map, if_pos rfl]
    exact this

/-- **A section of the sink** by the pump. -/
theorem section_moved (hr : (system B).Reach d) (hs : Sect B o p d.sink out)
    (hok : SinkOk (placeAt o p) d.sink) (hp : ∀ pc, p = some pc → d.pump.pc = .inSink o pc)
    (hnw : ∀ err, d.pump.pc ≠ .wrote err) (hn : p = none → ∀ o pc, d.pump.pc ≠ .inSink o pc) :
    Moved d (d.doSection o es out) := by
  have hhand := Pump.hand_data hnw
  cases writes_of_sect hs hok with
  | @fails s es' e h data hpc ht hw =>
    obtain ⟨ho, -, rfl, -⟩ := flash_item hr (hp _ hpc)
    refine section_flash hes hhand (not_settles (.inr fun err e' hr => by cases hr; decide))
      (by rw [Pump.tried, hp _ hpc]) ?_ ht (hw.trans (after_burnt (by simp)).symm)
    obtain ⟨op, idf⟩ := o
    cases ho
    rfl
  | @flashed s es' e h data hpc ht hw =>
    obtain ⟨-, -, rfl, -⟩ := flash_item hr (hp _ hpc)
    exact section_flash hes hhand (not_settles (.inr fun err e' hr => by cases hr))
      (by rw [Pump.tried, hp _ hpc]) rfl ht hw
  | @counts s es' e len err hpc ht hw hc =>
    subst hpc
    obtain ⟨⟨data, ho, -⟩, -⟩ := hok.place
    obtain ⟨ho, hnh⟩ := write_item (DevOk.reach hr) (hp _ rfl) ho
    exact section_counted hes hhand hnh ho hc (by rw [Pump.tried, hp _ rfl])
      (by rw [Pump.burnt, hp _ rfl]) ht hw
  | @stale s es' e len hpc ht hw =>
    subst hpc
    obtain ⟨⟨data, ho, -⟩, -⟩ := hok.place
    have htried : (d.pump.after o (.inr (.ret .sessionStale none))).tried = d.pump.data := by
      obtain ⟨op, idf⟩ := o
      cases ho
      rfl
    refine (section_same hes hhand (not_settles (.inr fun err e' hr => by cases hr; decide))
      ht hw).moved (.inr ?_) (.inl (after_burnt (by simp)))
    refine htried.trans ?_
    rw [Pump.tried, hp _ rfl]
  | @other s es' r ht hw hset hpa hra =>
    refine (section_same hes hhand hset ht hw).moved (.inl ?_) (.inl (after_burnt hra))
    unfold Pump.tried
    split
    next o' e len hpc =>
      cases hpo : p with
      | none => exact absurd hpc (hn hpo _ _)
      | some pc =>
        have := (hp pc hpo).symm.trans hpc
        cases this
        exact absurd hpo (hpa e len)
    next err hpc => exact absurd hpc (hnw err)
    · rfl

end

theorem answers (delivered : List UInt8) {c : OtaChar} {frame sector : List UInt8} :
    ∀ e ∈ .refused delivered :: d.notified c frame sector,
      (∃ x y, e = .notify x y) ∨ ∃ x, e = .refused x := by
  intro e he
  rcases List.mem_cons.mp he with rfl | he
  · exact .inr ⟨_, rfl⟩
  · obtain ⟨x, -, rfl⟩ := List.mem_map.mp he
    exact .inl ⟨_, _, rfl⟩

/-- The events: they only answer. -/
theorem ble_moved {e : BleEvent} (hst : d.bleStep e = some d') : Moved d d' := by
  cases bleStep_act (B := .otaSlots) hst with
  | @reply om frame err c hn =>
    have hs : SameBytes d ({ d with comp := c }.emit (frame.toList.flatMap
        ({ d with comp := c }.notified .recvFw · []))) := by
      refine .of_notified _ rfl rfl fun e he => ?_
      obtain ⟨f, -, he⟩ := List.mem_flatMap.mp he
      exact answers [] e (List.mem_cons_of_mem _ he)
    exact hs.frame rfl
  | @start om malloc frame c hn | @stop om malloc frame c hn =>
    refine SameBytes.frame ?_ rfl
    refine .of_notified ({ d with comp := c }.notified .cmd frame []) rfl ?_
      fun e he => answers [] e (List.mem_cons_of_mem _ he)
    simp [hand, hn, NimblePc.hand]
  | sectorEnd hn =>
    refine SameBytes.frame (.of_log rfl ?_) rfl
    simp [hand, hn, NimblePc.hand]
  | otherCommand | subscribe | disconnect => exact SameBytes.frame (.of_log rfl rfl) rfl

/-- The callbacks: the ring takes a sector, and a Start flushes what is in it. -/
theorem nimble_moved {n : Nat} (hdev : DevOk d) (hst : d.nimbleStep n = some d') : Moved d d' := by
  cases nimbleStep_act (B := .otaSlots) hst with
  | @recvRefuse n sector delivered frame hn | @sendFull n sector delivered frame hn =>
    refine SameBytes.frame (.of_notified
      (.refused delivered :: d.notified .recvFw frame sector) rfl ?_ (answers delivered)) rfl
    simp [hand, hn, NimblePc.hand]
  | @sendOk n sector delivered frame ring hn hs =>
    obtain ⟨-, hq, -⟩ := Ring.send_eq_some hs
    have hgather {β : Type} {f : DevEv → List β} (hf : ∀ x y, f (.notify x y) = []) :
        gather f (d.emit (.accepted (d.cells delivered) :: d.notified .recvFw frame sector)).log =
          gather f d.log ++ f (.accepted (d.cells delivered)) := by
      rw [gather_emit, List.flatMap_cons, flatMap_notified hf, List.append_nil]
    refine Moved.sent (d.cells delivered) (hgather fun _ _ => rfl) ?_ ?_ ?_ ?_ rfl
    · exact (hgather fun _ _ => rfl).trans (List.append_nil _)
    · exact (hgather fun _ _ => rfl).trans (List.append_nil _)
    · exact (hgather fun _ _ => rfl).trans (List.append_nil _)
    · simp [hand, hn, hq, NimblePc.hand]
  | startArm hn | startUnblock hn | flushDone hn | stopDisarm hn =>
    refine SameBytes.frame (.of_log rfl ?_) rfl
    simp [hand, hn, NimblePc.hand]
  | recvPass hn =>
    refine SameBytes.frame (.of_log rfl ?_) rfl
    simp [hand, hn, NimblePc.hand]
  | flushTake hn hrc =>
    obtain ⟨hfree, hq, -, -⟩ := Ring.receive_eq_some hrc
    obtain ⟨-, hp⟩ := List.append_eq_nil_iff.mp (hdev.hand_free hfree)
    refine SameBytes.frame (.of_log rfl ?_) rfl
    simp [hand, hn, hp, hq, NimblePc.hand]
  | flushReturn hn =>
    obtain ⟨-, -, hz⟩ := hdev.flush _ hn
    have ht : d.pump.tried = [] ∧ d.pump.burnt = [] := tried_nil hz
    refine Moved.lost (.inr ⟨rfl, rfl⟩) rfl ?_ (ht.1 ▸ List.nil_sublist _) ht.1 ht.2
    simp [hand, hn, NimblePc.hand]
  | startInvalidate hn =>
    refine SameBytes.frame (.of_emit [.sink .poke] rfl ?_ rfl rfl rfl rfl) rfl
    simp [hand, hn, NimblePc.hand]

/-- The pump takes an item, returns it, and calls the sink with it. -/
theorem pump_moved {n : Nat} {idf : Idf} (hr : (system B).Reach d)
    (hst : d.pumpStep B n idf = some d') : Moved d d' := by
  have hdev := DevOk.reach hr
  have hcalled {op : Op Cell} (hc : d.pump.callOf d.pump.pc = some op) :
      (∀ err, d.pump.pc ≠ .wrote err) ∧ ∀ o pc, d.pump.pc ≠ .inSink o pc := by
    rcases d.pump.callOf_cases hc with ⟨_, hp, -⟩ | ⟨hp, -⟩ | ⟨hp, -⟩ | ⟨hp, -⟩ | ⟨hp, -⟩ <;>
      simp [hp]
  cases pumpStep_act hst with
  | take hpc hrc =>
    obtain ⟨hfree, hq, -, -⟩ := Ring.receive_eq_some hrc
    obtain ⟨hnh, hph⟩ := List.append_eq_nil_iff.mp (hdev.hand_free hfree)
    refine SameBytes.moved (.of_log rfl ?_) (.inl ?_) (.inl rfl)
    · simp only [hand, hnh, hph, hq]
      simp [Pump.hand]
    · rw [Pump.tried, hpc]
  | timesOut hpc | timeoutAbort hpc | timeoutBack hpc | emptyItem hpc | lazyOpen hpc | toWrite hpc
    | unarmed hpc | zero hpc | length hpc | zeroBlock hpc | failBlock hpc =>
    refine SameBytes.moved (.of_log rfl ?_) (.inl ?_) (.inl rfl)
    · simp [hand, Pump.hand, hpc]
    · rw [Pump.tried, hpc]
  | giveBack hpc =>
    have hnh := hdev.hand_eq (hdev.holds.mpr (by rw [hpc]; trivial))
    refine Moved.lost (.inl ⟨rfl, rfl⟩) rfl ?_ ?_ rfl rfl
    · simp [hand, hnh, Pump.hand, hpc]
    · rw [Pump.tried, hpc]
      exact List.nil_sublist _
  | wroteFail hpc h₁ h₂ =>
    have hnh := hdev.hand_eq (hdev.holds.mpr (by rw [hpc]; trivial))
    have hnc : ¬OtaSinkErr.Counted _ := not_or.mpr ⟨h₁, h₂⟩
    refine Moved.lost (.inl ⟨rfl, rfl⟩) rfl ?_ ?_ rfl rfl
    · simp [hand, hnh, Pump.hand, hpc, hnc]
    · rw [Pump.tried, hpc]
      simp [hnc]
  | wroteOk hpc he =>
    have hnh := hdev.hand_eq (hdev.holds.mpr (by rw [hpc]; trivial))
    refine SameBytes.moved (.of_log rfl ?_) (.inl ?_) (.inl ?_)
    · rw [hand, hand, hnh, Pump.hand_nil rfl]
      simp [Pump.hand, hpc, OtaSinkErr.Counted, he]
    · simp [Pump.tried, hpc, OtaSinkErr.Counted, he]
    · exact (tried_nil rfl).2
  | @calls n idf op out hc _ hs =>
    have hok : SinkOk d.place d.sink := sinkOk hr
    rw [place_of_callOf hc] at hok
    exact section_moved (by simp) hr hs hok (fun _ h => by cases h) (hcalled hc).1
      (fun _ => (hcalled hc).2)
  | @sections n idf o pc out hpc _ hs =>
    have hok : SinkOk d.place d.sink := sinkOk hr
    simp only [place, hpc] at hok
    exact section_moved (by simp) hr hs hok (fun _ h => by cases h; exact hpc) (by simp [hpc])
      (fun h => by cases h)

/-- **Every step of the device** is a step of the channel or none, and keeps the invariant. -/
theorem step_moved (hr : (system B).Reach d) (hst : (system B).step l d = some d') :
    Moved d d' := by
  cases l with
  | ble e => exact ble_moved hst
  | nimble n => exact nimble_moved (DevOk.reach hr) hst
  | pump n idf => exact pump_moved hr hst

theorem BytesOk.init : BytesOk .init := ⟨List.Sublist.slnil, List.Sublist.slnil⟩

/-- The transport is a channel in every reachable state. -/
theorem channel_reach (h : (system B).Reach d) :
    (Channel.system Cell Fate).Reach d.channel ∧ BytesOk d := by
  refine h.invariant (I := fun d => (Channel.system Cell Fate).Reach d.channel ∧ BytesOk d)
    (fun d hd => by cases hd; exact ⟨.init rfl, .init⟩) (fun l d d' hr hi hst => ?_)
  have hm := step_moved hr hst
  refine ⟨?_, hm.ok hi.2⟩
  rcases hm.channel with hc | ⟨m, hc⟩
  · exact hc ▸ hi.1
  · exact .step m hi.1 (congrArg some hc.symm)

/-- **The bytes of the transport are conserved**: it is a channel that may lose, each step of the
device one of its steps or none. What the ring has accepted is, in order, what has a fate, what is
in the hands of the tasks and what waits. `esp_ota_write` gets no accepted byte twice and none out
of order, and has written each byte with the fate `written`. -/
theorem bytes_conserved (h : (system B).Reach d) :
    (Channel.system Cell Fate).Reach d.channel ∧
      (∀ l d', (system B).step l d = some d' → d'.channel = d.channel ∨
        ∃ m, (Channel.system Cell Fate).step m d.channel = some d'.channel) ∧
      d.accepted = d.fates.map (·.1) ++ (d.hand ++ d.ring.queue) ∧
      d.flashedAll.Sublist d.accepted ∧ (Channel.ofFate .written d.fates).Sublist d.burned := by
  obtain ⟨hc, hk⟩ := channel_reach h
  have hcons : d.accepted = d.fates.map (·.1) ++ (d.hand ++ d.ring.queue) := Channel.conserved hc
  refine ⟨hc, fun l d' hst => ?_, hcons, ?_, (List.sublist_append_left _ _).trans hk.burnt⟩
  · exact (step_moved h hst).channel.imp id fun ⟨m, hm⟩ => ⟨m, congrArg some hm.symm⟩
  have htried : d.pump.tried.Sublist d.hand := by
    refine List.Sublist.trans ?_ (List.sublist_append_right d.nimble.hand d.pump.hand)
    unfold Pump.tried Pump.hand
    split <;> simp_all
  rw [hcons]
  exact hk.tried.trans ((htried.trans (List.sublist_append_left _ _)).append_left _)

/-- Two sectors: the pump writes the first; the second waits until a Start flushes it. -/
def flushedSector : List DevLabel :=
  writtenSector ++ pumpSteps 2 ++ wholePacket 1 [3] :: recvCallback ++ startCommand 8 ::
    List.replicate 6 (.nimble 0)

theorem bytes_conserved_flushedSector :
    let d := (system .otaSlots).run flushedSector .init
    d.fates.map (fun x => (x.1.byte, x.2)) = [(1, .written), (2, .written), (3, .flushed)] ∧
      (Channel.system Cell Fate).Reach d.channel ∧
      d.accepted = d.fates.map (·.1) ++ (d.hand ++ d.ring.queue) ∧
      d.flashedAll.Sublist d.accepted ∧ (Channel.ofFate .written d.fates).Sublist d.burned :=
  have h := bytes_conserved (Lib.Lts.run_reach (S := system .otaSlots) (.init rfl) flushedSector)
  ⟨rfl, h.1, h.2.2⟩

end Device

end BleOta
