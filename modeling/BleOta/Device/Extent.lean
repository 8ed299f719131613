import BleOta.Device.Counts
import BleOta.Sink.Boot
import Mathlib.Algebra.GroupWithZero.Nat

/-!
# How far a session writes

`esp_ota_begin(target, s)` erases `s` bytes, rounded up to a sector. The sink does not compare the
bytes that it writes with `s`; the pump stops after the write that reaches `s`. So a write starts
below `s`, and may end up to one item of the ring behind it.

* `overrun`: a session of two bytes that hands 4098 bytes to `esp_ota_write`.
* `extent_bounded`: each write of a session of `s` bytes starts below `s`, and the session writes
  fewer than `s + 8192` bytes.
-/

namespace BleOta

open Lib.Code (events)

section Handed

variable {α : Type} {hd : Nat}

/-- The bytes that an event hands to `esp_ota_write` for the handle `hd`. -/
def handedBy (hd : Nat) : Ev α → Nat
  | .otaWrite h data _ => if h = hd then data.length else 0
  | _ => 0

/-- The bytes handed to `esp_ota_write` for the handle `hd`. -/
def handed (hd : Nat) (es : List (Ev α)) : Nat := (es.map (handedBy hd)).sum

@[simp] theorem handed_nil : handed hd ([] : List (Ev α)) = 0 := rfl

@[simp] theorem handed_append (es es' : List (Ev α)) :
    handed hd (es ++ es') = handed hd es + handed hd es' := by
  simp [handed]

@[simp] theorem handed_cons (e : Ev α) (es : List (Ev α)) :
    handed hd (e :: es) = handedBy hd e + handed hd es := by
  simp [handed]

/-- Events without a write hand nothing over. -/
theorem handed_quiet {es : List (Ev α)} (h : ∀ data err, .otaWrite hd data err ∉ es) :
    handed hd es = 0 := by
  induction es with
  | nil => rfl
  | cons e es ih =>
    have hz : handedBy hd e = 0 := by
      unfold handedBy
      split
      · next h' data err =>
        split
        · next he => exact absurd (he ▸ List.mem_cons_self ..) (h data err)
        · rfl
      · rfl
    rw [handed_cons, hz, ih fun data err hm => h data err (List.mem_cons_of_mem _ hm)]

/-- Each write on `hd` starts below `n` and hands over at most `k` bytes. -/
def StartsBelow (n k hd : Nat) (es : List (Ev α)) : Prop :=
  ∀ pre data err post, es = pre ++ .otaWrite hd data err :: post →
    handed hd pre < n ∧ data.length ≤ k

theorem StartsBelow.append {n k : Nat} {es es' : List (Ev α)} (h : StartsBelow n k hd es)
    (hn : ∀ data err, .otaWrite hd data err ∉ es') : StartsBelow n k hd (es ++ es') := by
  intro pre data err post he
  obtain ⟨post', he'⟩ := split_old he (hn data err)
  exact h pre data err post' he'

theorem StartsBelow.write {n k : Nat} {es es' : List (Ev α)} {data : List α} {err : EspErr}
    (h : StartsBelow n k hd es) (hlt : handed hd es < n) (hk : data.length ≤ k)
    (hn : ∀ data err, .otaWrite hd data err ∉ es') :
    StartsBelow n k hd (es ++ .otaWrite hd data err :: es') := by
  have hone : StartsBelow n k hd (es ++ [.otaWrite hd data err]) := by
    intro pre data' err' post he
    rcases List.eq_nil_or_concat post with rfl | ⟨post', b, rfl⟩
    · obtain ⟨rfl, h2⟩ := List.append_inj' he rfl
      cases h2
      exact ⟨hlt, hk⟩
    · have he' : es ++ [.otaWrite hd data err] =
          (pre ++ .otaWrite hd data' err' :: post') ++ [b] := by
        simpa using he
      exact h pre data' err' post' (List.append_inj' he' rfl).1
  have := hone.append hn
  rwa [List.append_assoc] at this

/-- Only the last write may reach behind the bound. -/
theorem StartsBelow.handed_lt {n k : Nat} {es : List (Ev α)} (h : StartsBelow n k hd es)
    (hn : 0 < n + k) : handed hd es < n + k := by
  induction es using List.reverseRecOn with
  | nil => exact hn
  | append_singleton es e ih =>
    have hprev := ih fun pre data err post he => h pre data err (post ++ [e]) (by rw [he]; simp)
    have hstep : handedBy hd e = 0 ∨ ∃ data err, e = .otaWrite hd data err := by
      unfold handedBy
      split
      · next h' data err =>
        by_cases he : h' = hd
        · subst he
          exact .inr ⟨data, err, rfl⟩
        · simp [he]
      · exact .inl rfl
    rcases hstep with hz | ⟨data, err, rfl⟩
    · simp [hz]
      exact hprev
    · obtain ⟨h1, h2⟩ := h es data err [] rfl
      simp [handedBy]
      omega

end Handed

namespace Device

/-- The events of the sink. -/
def sinkEvents (d : Device) : List (Ev Cell) := events (sinkLog d.log)

/-- How far the session of the pump has come at its places: what was handed over for the latest
handle, exactly. -/
def ExtentAt (d : Device) : PumpPc → Prop
  | .receive | .timeout | .arrived | .writing | .inSink _ (.writeFlash ..) =>
    handed d.sink.handles d.sinkEvents = d.pump.bytesPumped ∧ d.pump.bytesPumped < d.pump.fwLen
  | .inSink _ (.writeAccount ..) =>
    handed d.sink.handles d.sinkEvents = d.pump.bytesPumped + d.pump.data.length ∧
      d.pump.bytesPumped < d.pump.fwLen
  | .wrote err => err = .ok ∨ err = .nvs →
    handed d.sink.handles d.sinkEvents = d.pump.bytesPumped + d.pump.data.length ∧
      d.pump.bytesPumped < d.pump.fwLen
  | _ => True

/-- The invariant: the sessions so far, and the one of the pump. -/
structure Extent (d : Device) : Prop where
  begun : ∀ t n h, .otaBegin t n h espOk ∈ d.sinkEvents → 0 < n ∧ h ≤ d.sink.handles
  starts : ∀ t n h, .otaBegin t n h espOk ∈ d.sinkEvents → StartsBelow n ringbufSize h d.sinkEvents
  size : d.pump.epoch ≠ 0 → ∀ t n, .otaBegin t n d.sink.handles espOk ∈ d.sinkEvents →
    n = d.pump.fwLen
  room : d.pump.epoch ≠ 0 → d.pump.fwLen + ringbufSize ≤ 2 ^ 32
  at_ : d.pump.epoch ≠ 0 → d.ExtentAt d.pump.pc

variable {B : Board} {d d' : Device} {l : DevLabel}

theorem Extent.init : Extent .init :=
  ⟨(fun _ _ _ h => by cases h), (fun _ _ _ h => by cases h), fun h => absurd rfl h,
    fun h => absurd rfl h, fun h => absurd rfl h⟩

/-- A step without events of the sink that keeps the session of the pump, or has none. -/
theorem Extent.keep (h : Extent d) (hev : d'.sinkEvents = d.sinkEvents)
    (hh : d'.sink.handles = d.sink.handles)
    (hp : d'.pump.epoch ≠ 0 → d.pump.epoch ≠ 0 ∧ d'.pump.fwLen = d.pump.fwLen ∧
      d'.ExtentAt d'.pump.pc) : Extent d' where
  begun := by rw [hev, hh]; exact h.begun
  starts := by rw [hev]; exact h.starts
  size he := by rw [hev, hh, (hp he).2.1]; exact h.size (hp he).1
  room he := by rw [(hp he).2.1]; exact h.room (hp he).1
  at_ he := (hp he).2.2

theorem sinkEvents_of_log (h : sinkLog d'.log = sinkLog d.log) : d'.sinkEvents = d.sinkEvents := by
  rw [sinkEvents, h]
  rfl

/-- An item of the pump fits into the ring. -/
theorem item_length (hr : (system B).Reach d) : d.pump.data.length ≤ ringbufSize := by
  by_cases hd : d.pump.data = []
  · simp [hd]
  · have hfit := d.ring.fits
    rw [(DevOk.reach hr).pump hd, Option.getD_some] at hfit
    omega

/-- The pump adds up without a wrap. -/
theorem pumped_eq {n m k : Nat} (h : n < m) (hk : k ≤ ringbufSize) (hm : m + ringbufSize ≤ 2 ^ 32) :
    u32 (n + u32 k) = n + k := by
  simp only [u32, ringbufSize] at *
  omega

/-! ## The sections of the sink -/

variable {o : SinkCall Cell} {p : Option (Pc Cell)} {out : Out Cell}

theorem sinkEvents_section : (d.doSection o (callEntry o p) out).sinkEvents =
    d.sinkEvents ++ out.2.1 := by
  rw [sinkEvents, sinkLog_section, sectionEntries]
  cases p <;> simp [callEntry, sinkEvents]

/-- A section that begins nothing and writes nothing. -/
theorem Extent.quiet (h : Extent d)
    (hb : ∀ t n hd, .otaBegin t n hd espOk ∉ out.2.1)
    (hw : ∀ hd data err, .otaWrite hd data err ∉ out.2.1) (hh : out.1.handles = d.sink.handles)
    (ho : ∀ cfg, o.1 = .sessionOpen cfg → ∀ e, out.2.2 ≠ .inr (.ret .ok e))
    (hat : (d.pump.after o out.2.2).epoch ≠ 0 → d.ExtentAt d.pump.pc →
      (d.doSection o (callEntry o p) out).ExtentAt (d.pump.after o out.2.2).pc) :
    Extent (d.doSection o (callEntry o p) out) := by
  have hold : ∀ t n hd, .otaBegin t n hd espOk ∈ (d.doSection o (callEntry o p) out).sinkEvents →
      .otaBegin t n hd espOk ∈ d.sinkEvents := by
    intro t n hd hm
    rw [sinkEvents_section] at hm
    exact (List.mem_append.mp hm).resolve_right (hb t n hd)
  have hh' : (d.doSection o (callEntry o p) out).sink.handles = d.sink.handles := hh
  have hp : (d.doSection o (callEntry o p) out).pump = d.pump.after o out.2.2 := rfl
  have hsess := d.pump.after_session ho
  refine ⟨fun t n hd hm => ?_, fun t n hd hm => ?_, fun he t n hm => ?_, fun he => ?_, fun he => ?_⟩
  · rw [hh']
    exact h.begun t n hd (hold t n hd hm)
  · rw [sinkEvents_section]
    exact (h.starts t n hd (hold t n hd hm)).append (hw hd)
  · rw [hp] at he ⊢
    obtain ⟨h1, h2, -⟩ := hsess.resolve_left he
    rw [h2]
    rw [hh'] at hm
    exact h.size (h1 ▸ he) t n (hold t n _ hm)
  · rw [hp] at he ⊢
    obtain ⟨h1, h2, -⟩ := hsess.resolve_left he
    rw [h2]
    exact h.room (h1 ▸ he)
  · rw [hp] at he ⊢
    exact hat he (h.at_ ((hsess.resolve_left he).1 ▸ he))

/-- No bytes were handed over for a handle that is not made yet. -/
theorem not_written_new (hr : (system B).Reach d) {hd : Nat} (hlt : d.sink.handles < hd)
    (data : List Cell) (err : EspErr) : .otaWrite hd data err ∉ d.sinkEvents := by
  intro hm
  obtain ⟨x, hx, he⟩ := List.mem_filterMap.mp hm
  cases x with
  | ev ev =>
    cases he
    have hle : hd ≤ d.sink.handles := written_le (view_reach hr) hx
    omega
  | _ => cases he

/-- A successful open: nothing was handed over for the new handle. -/
theorem Extent.begins {cfg : OtaSinkSessionCfg} {idf : Idf} {t : Partition} {e : Nat}
    {ev : OtaSinkEvent} (h : Extent d) (hr : (system B).Reach d)
    (hev : out.2.1 = settleEvents d.sink.sink ++
      [.otaBegin t cfg.imageSize (d.sink.handles + 1) espOk, .fire ev])
    (hh : out.1.handles = d.sink.handles + 1) (hres : out.2.2 = .inr (.ret .ok (some e)))
    (h0 : cfg.imageSize ≠ 0) (hfit : cfg.imageSize + ringbufSize ≤ 2 ^ 32) :
    Extent (d.doSection (.sessionOpen (some cfg), idf)
      (callEntry (.sessionOpen (some cfg), idf) p) out) := by
  have hsettle : ∀ ev' ∈ (settleEvents d.sink.sink : List (Ev Cell)),
      ev' = .otaAbort d.sink.sink.handle := fun ev' hm => settleEvents_mem hm
  have hnew : ∀ t' n hd, .otaBegin t' n hd espOk ∈ out.2.1 →
      t' = t ∧ n = cfg.imageSize ∧ hd = d.sink.handles + 1 := by
    intro t' n hd hm
    rw [hev] at hm
    rcases List.mem_append.mp hm with hm | hm
    · cases hsettle _ hm
    · simpa using hm
  have hw : ∀ hd data err, .otaWrite hd data err ∉ out.2.1 := by
    intro hd data err hm
    rw [hev] at hm
    rcases List.mem_append.mp hm with hm | hm
    · cases hsettle _ hm
    · simp at hm
  have hp : (d.doSection (.sessionOpen (some cfg), idf)
      (callEntry (.sessionOpen (some cfg), idf) p) out).pump = { d.pump with
        epoch := e, fwLen := cfg.imageSize, bytesPumped := 0,
        pc := if e ≠ 0 then .writing else .giveBack } := by
    show d.pump.after _ out.2.2 = _
    rw [hres]
    rfl
  have hhd : (d.doSection (.sessionOpen (some cfg), idf)
      (callEntry (.sessionOpen (some cfg), idf) p) out).sink.handles = d.sink.handles + 1 := hh
  have hnone : ∀ data err, .otaWrite (d.sink.handles + 1) data err ∉ d.sinkEvents :=
    not_written_new hr (Nat.lt_succ_self _)
  refine ⟨fun t' n hd hm => ?_, fun t' n hd hm => ?_, fun _ t' n hm => ?_, fun _ => ?_,
    fun he => ?_⟩
  · rw [hhd]
    rw [sinkEvents_section] at hm
    rcases List.mem_append.mp hm with hm | hm
    · have := h.begun t' n hd hm
      omega
    · obtain ⟨-, rfl, rfl⟩ := hnew t' n hd hm
      omega
  · rw [sinkEvents_section] at hm ⊢
    rcases List.mem_append.mp hm with hm | hm
    · exact (h.starts t' n hd hm).append (hw hd)
    · obtain ⟨-, rfl, rfl⟩ := hnew t' n hd hm
      intro pre data err post heq
      obtain ⟨post', heq'⟩ := split_old heq (hw _ data err)
      exact absurd (heq' ▸ List.mem_append_right _ (List.mem_cons_self ..)) (hnone data err)
  · rw [sinkEvents_section, hhd] at hm
    rw [hp]
    rcases List.mem_append.mp hm with hm | hm
    · have := h.begun t' n _ hm
      omega
    · exact (hnew t' n _ hm).2.1
  · rw [hp]
    exact hfit
  · have hz : handed (d.sink.handles + 1) (d.sinkEvents ++ out.2.1) = 0 := by
      rw [handed_append, handed_quiet hnone, handed_quiet (hw _)]
    rw [hp] at he ⊢
    dsimp only at he ⊢
    rw [if_pos he]
    refine ⟨?_, ?_⟩
    · rw [hhd, sinkEvents_section, hp]
      exact hz
    · rw [hp]
      exact Nat.pos_of_ne_zero h0

/-- `esp_ota_write` of the item of the pump. -/
theorem Extent.flash {e : Nat} {es : List (Ev Cell)} {err : EspErr} (h : Extent d)
    (hr : (system B).Reach d) (hne : d.pump.epoch ≠ 0)
    (hpc : d.pump.pc = .inSink o (.writeFlash e d.sink.handles d.pump.data))
    (hev : out.2.1 = .otaWrite d.sink.handles d.pump.data err :: es)
    (hes : ∀ hd data err, .otaWrite hd data err ∉ es) (hb : ∀ t n hd, .otaBegin t n hd espOk ∉ es)
    (hs : out.1 = d.sink) (ho : ∃ e data, o.1 = .write e data)
    (hres : (∃ e len, out.2.2 = .inl (.writeAccount e len)) ∨
      out.2.2 = .inr (.ret .writeFail none)) :
    Extent (d.doSection o (callEntry o p) out) := by
  have hat := h.at_ hne
  rw [hpc] at hat
  obtain ⟨hcnt, hlt⟩ := hat
  have hh : (d.doSection o (callEntry o p) out).sink.handles = d.sink.handles := by
    show out.1.handles = _
    rw [hs]
  have hold : ∀ t n hd, .otaBegin t n hd espOk ∈ (d.doSection o (callEntry o p) out).sinkEvents →
      .otaBegin t n hd espOk ∈ d.sinkEvents := by
    intro t n hd hm
    rw [sinkEvents_section, hev] at hm
    rcases List.mem_append.mp hm with hm | hm
    · exact hm
    · rcases List.mem_cons.mp hm with hm | hm
      · cases hm
      · exact absurd hm (hb t n hd)
  have hp : (d.doSection o (callEntry o p) out).pump = d.pump.after o out.2.2 := rfl
  obtain ⟨op, idf⟩ := o
  obtain ⟨e', data', rfl⟩ := ho
  have hsess : (d.pump.after (.write e' data', idf) out.2.2).epoch = d.pump.epoch ∧
      (d.pump.after (.write e' data', idf) out.2.2).fwLen = d.pump.fwLen := by
    rcases hres with ⟨_, _, hres⟩ | hres <;> rw [hres] <;> exact ⟨rfl, rfl⟩
  refine ⟨fun t n hd hm => ?_, fun t n hd hm => ?_, fun he t n hm => ?_, fun he => ?_, fun he => ?_⟩
  · rw [hh]
    exact h.begun t n hd (hold t n hd hm)
  · rw [sinkEvents_section, hev]
    have hb' := hold t n hd hm
    by_cases hhd : hd = d.sink.handles
    · subst hhd
      refine (h.starts t n _ hb').write ?_ (item_length hr) (hes _)
      rw [h.size hne t n hb', hcnt]
      exact hlt
    · refine (h.starts t n hd hb').append fun data err hm => ?_
      rcases List.mem_cons.mp hm with hm | hm
      · cases hm
        exact hhd rfl
      · exact hes _ _ _ hm
  · rw [hp, hsess.2]
    rw [hh] at hm
    exact h.size hne t n (hold t n _ hm)
  · rw [hp, hsess.2]
    exact h.room hne
  · have hcnt' : handed d.sink.handles (d.sinkEvents ++ out.2.1) =
        d.pump.bytesPumped + d.pump.data.length := by
      rw [hev, handed_append, handed_cons, handed_quiet (hes _), hcnt]
      simp [handedBy]
    rcases hres with ⟨e'', len, hres⟩ | hres
    · rw [hp, hres]
      refine ⟨?_, ?_⟩
      · rw [hh, sinkEvents_section, hp, hres]
        exact hcnt'
      · rw [hp, hres]
        exact hlt
    · rw [hp, hres]
      show OtaSinkErr.writeFail = .ok ∨ OtaSinkErr.writeFail = .nvs → _
      simp

/-- After a call that has failed the pump is at no place where it may write. -/
theorem extentAt_failed {err : OtaSinkErr} {e : Option Nat} (h1 : err ≠ .ok) (h2 : err ≠ .nvs)
    (hne : (d.pump.after o (.inr (.ret err e))).epoch ≠ 0) :
    d'.ExtentAt (d.pump.after o (.inr (.ret err e))).pc := by
  obtain ⟨op, idf⟩ := o
  cases op with
  | sessionOpen cfg =>
    have hpc : (d.pump.after (.sessionOpen cfg, idf) (.inr (.ret err e))).pc = .openFailed := by
      simp [Pump.after, h1]
    rw [hpc]
    trivial
  | write => exact fun h => absurd h (by simp [h1, h2])
  | finish => exact absurd (by simp [Pump.after, h1, Pump.reset]) hne
  | activate | sessionAbort => exact absurd rfl hne

/-- A call that has failed, and neither began a session nor wrote. -/
theorem Extent.failed {err : OtaSinkErr} {e : Option Nat} (h : Extent d)
    (hres : out.2.2 = .inr (.ret err e)) (h1 : err ≠ .ok) (h2 : err ≠ .nvs)
    (hb : ∀ t n hd, .otaBegin t n hd espOk ∉ out.2.1)
    (hw : ∀ hd data err, .otaWrite hd data err ∉ out.2.1) (hh : out.1.handles = d.sink.handles) :
    Extent (d.doSection o (callEntry o p) out) := by
  refine h.quiet hb hw hh ?_ fun hne _ => ?_
  · intro cfg _ e' hr
    rw [hres] at hr
    cases hr
    exact h1 rfl
  · rw [hres] at hne ⊢
    exact extentAt_failed h1 h2 hne

/-- The deferred abort begins nothing and writes nothing. -/
theorem settle_quiet (s : Sink) :
    (∀ t n hd, .otaBegin t n hd espOk ∉ (settleEvents s : List (Ev Cell))) ∧
      ∀ hd data err, .otaWrite hd data err ∉ (settleEvents s : List (Ev Cell)) := by
  constructor
  · intro t n hd hm
    cases settleEvents_mem hm
  · intro hd data err hm
    cases settleEvents_mem hm

/-- An open that does not reach `esp_ota_begin`. -/
theorem Extent.notOpened {cfg : Option OtaSinkSessionCfg} {idf : Idf} {err : OtaSinkErr}
    {e : Option Nat} (h : Extent d) (hres : out.2.2 = .inr (.ret err e)) (he : err ≠ .ok)
    (hev : out.2.1 = settleEvents d.sink.sink) (hh : out.1.handles = d.sink.handles) :
    Extent (d.doSection (.sessionOpen cfg, idf) (callEntry (.sessionOpen cfg, idf) p) out) := by
  obtain ⟨hb, hw⟩ := settle_quiet d.sink.sink
  refine h.quiet (hev ▸ hb) (hev ▸ hw) hh ?_ fun _ _ => ?_
  · intro _ _ e' hr
    rw [hres] at hr
    cases hr
    exact he rfl
  · have hpc : (d.pump.after (.sessionOpen cfg, idf) (.inr (.ret err e))).pc = .openFailed := by
      simp [Pump.after, he]
    rw [hres, hpc]
    trivial

/-- An open for which `esp_ota_begin` fails. -/
theorem Extent.beginFails {t : Partition} {n hd : Nat} {err : EspErr} {ev : OtaSinkEvent}
    (h : Extent d) (hres : out.2.2 = .inr (.ret .beginFail none)) (herr : err ≠ espOk)
    (hev : out.2.1 = settleEvents d.sink.sink ++ [.otaBegin t n hd err, .fire ev])
    (hh : out.1.handles = d.sink.handles) : Extent (d.doSection o (callEntry o p) out) := by
  obtain ⟨hb, hw⟩ := settle_quiet d.sink.sink
  refine h.failed hres (by decide) (by decide) (fun t' n' hd' hm => ?_)
    (fun hd' data err' hm => ?_) hh
  · rw [hev] at hm
    rcases List.mem_append.mp hm with hm | hm
    · exact hb t' n' hd' hm
    · simp only [List.mem_cons, Ev.otaBegin.injEq, reduceCtorEq, List.not_mem_nil, or_false] at hm
      exact herr hm.2.2.2.symm
  · rw [hev] at hm
    rcases List.mem_append.mp hm with hm | hm
    · exact hw hd' data err' hm
    · simp at hm

/-- A write that reaches `esp_ota_write`. -/
theorem Extent.writes {e e' hd : Nat} {data : Option (List Cell)} {data' : List Cell} {idf : Idf}
    (h : Extent d) (hpc : d.pump.pc = .writing) :
    Extent (d.doSection (.write e data, idf) (callEntry (.write e data, idf) p)
      (d.sink, [], .inl (.writeFlash e' hd data'))) := by
  refine h.quiet (by simp) (by simp) rfl (by simp) fun _ hx => ?_
  rw [hpc] at hx
  refine ⟨?_, hx.2⟩
  rw [sinkEvents_section, List.append_nil]
  exact hx.1

/-- The item that `esp_ota_write` gets is the one of the pump, for the latest handle. -/
theorem flash_latest {e hd : Nat} {data : List Cell} (hr : (system B).Reach d)
    (hpc : d.pump.pc = .inSink o (.writeFlash e hd data)) :
    hd = d.sink.handles ∧ data = d.pump.data ∧ d.pump.epoch ≠ 0 ∧
      ∃ e data, o.1 = .write e data := by
  obtain ⟨ho, -, rfl, hhd, -, -⟩ := flash_item hr hpc
  have hok : SinkOk d.place d.sink := sinkOk hr
  simp only [place, hpc] at hok
  refine ⟨?_, rfl, (InStep.reach hr).active (by rw [hpc]; trivial), _, _, ho⟩
  rcases handle_latest (view_reach hr) with hz | hz
  · exact absurd hz hok.place.2.2.1
  · exact hhd.trans hz

/-- A write that is accounted. -/
theorem Extent.accounts {e e' n : Nat} {data : Option (List Cell)} {idf : Idf} {err : OtaSinkErr}
    (h : Extent d) (hpc : d.pump.pc = .inSink (.write e data, idf) (.writeAccount e' n))
    (hes : ∀ ev ∈ out.2.1, ev.IsProgress) (hres : out.2.2 = .inr (.ret err none))
    (hh : out.1.handles = d.sink.handles) :
    Extent (d.doSection (.write e data, idf) (callEntry (.write e data, idf) p) out) := by
  refine h.quiet (fun t n hd hm => (hes _ hm).elim) (fun hd data err hm => (hes _ hm).elim) hh
    (by simp) fun _ hx => ?_
  have hhd : (d.doSection (.write e data, idf) (callEntry (.write e data, idf) p)
      out).sink.handles = d.sink.handles := hh
  rw [hpc] at hx
  rw [hres]
  intro _
  refine ⟨?_, ?_⟩
  · rw [hhd, sinkEvents_section, handed_append, handed_quiet fun data err hm => (hes _ hm).elim]
    show _ = (d.pump.after _ out.2.2).bytesPumped + (d.pump.after _ out.2.2).data.length
    rw [hres]
    exact hx.1
  · show (d.pump.after _ out.2.2).bytesPumped < (d.pump.after _ out.2.2).fwLen
    rw [hres]
    exact hx.2

/-- **A section of the sink** keeps the bounds. -/
theorem Extent.section (h : Extent d)
    (hB : ∀ t, B.running.bind B.nextUpdate = some t → t.size + ringbufSize ≤ 2 ^ 32)
    (hr : (system B).Reach d) (hat : d.AtSection o p) (hs : Sect B o p d.sink out) :
    Extent (d.doSection o (callEntry o p) out) := by
  have hok : SinkOk (placeAt o p) d.sink := hat.placeAt ▸ sinkOk hr
  have hpl := hok.place
  cases hs with
  | refused h1 h2 => exact h.failed rfl h1 h2 (by simp) (by simp) rfl
  | notOpened ho he =>
    obtain ⟨op, idf⟩ := o
    obtain rfl : op = .sessionOpen _ := ho
    exact h.notOpened rfl he rfl rfl
  | beginFails _ _ _ hb => exact h.beginFails rfl hb rfl rfl
  | begins ho hl ht h0 hfit =>
    obtain ⟨op, idf⟩ := o
    obtain rfl : op = .sessionOpen _ := ho
    have := hB _ ht
    exact h.begins hr rfl rfl rfl h0 (by omega)
  | writes ho _ _ _ hw =>
    obtain ⟨op, idf⟩ := o
    obtain rfl : op = .write _ _ := ho
    have hpc : d.pump.pc = .writing := by
      rcases d.pump.callOf_cases hat with ⟨_, -, hx⟩ | ⟨hpc, -⟩ | ⟨-, hx⟩ | ⟨-, hx⟩ | ⟨-, hx⟩
      all_goals first | exact hpc | cases hx
    exact h.writes hpc
  | @flashFails e hd data _ hw | @flashed e hd data _ hw =>
    have hpc : d.pump.pc = .inSink o (.writeFlash e hd data) := hat
    obtain ⟨rfl, rfl, hne, ho⟩ := flash_latest hr hpc
    exact h.flash hr hne hpc rfl (by simp [sinkFireError]) (by simp [sinkFireError]) rfl ho
      (by first | exact .inl ⟨_, _, rfl⟩ | exact .inr rfl)
  | staleAfter => exact h.failed rfl (by decide) (by decide) (by simp) (by simp) rfl
  | accounts _ _ _ hes herr =>
    obtain ⟨⟨data, ho, -⟩, -⟩ := hpl
    obtain ⟨op, idf⟩ := o
    obtain rfl : op = .write _ _ := ho
    exact h.accounts hat hes rfl rfl
  | finishes | ended | activates | booted | cleared =>
    exact h.quiet (by simp) (by simp) rfl (by simp) fun _ _ => trivial
  | bootFailed => exact h.quiet (by simp) (by simp) rfl (by simp) fun _ _ => trivial
  | endFailed | undone =>
    exact h.failed rfl (by decide) (by decide) (by simp [sinkFireError]) (by simp [sinkFireError])
      rfl
  | validated =>
    have ho : o.1 = .finish d.sink.sink.epoch := hpl.1
    obtain ⟨op, idf⟩ := o
    obtain rfl : op = .finish _ := ho
    exact h.quiet (by simp) (by simp) rfl (by simp) fun _ _ => trivial
  | @closed reboot =>
    have ho : o.1 = .activate d.sink.sink.epoch reboot := hpl.1
    obtain ⟨op, idf⟩ := o
    obtain rfl : op = .activate _ _ := ho
    refine h.quiet (by simp) (by simp) rfl (by simp) fun hne _ => ?_
    cases reboot
    · exact absurd rfl hne
    · trivial
  | aborts ho | drops ho =>
    obtain ⟨op, idf⟩ := o
    obtain rfl : op = .sessionAbort _ := ho
    exact h.quiet (by simp) (by simp) rfl (by simp) fun hne _ => absurd rfl hne

/-- A step of the pump. -/
theorem Extent.pump {n : Nat} {idf : Idf} (h : Extent d)
    (hB : ∀ t, B.running.bind B.nextUpdate = some t → t.size + ringbufSize ≤ 2 ^ 32)
    (hr : (system B).Reach d) (hst : (system B).step (.pump n idf) d = some d') : Extent d' := by
  have hlazy := lazy_epoch hr
  cases step_act hst with
  | take hpc | timesOut hpc | timeoutBack hpc | emptyItem hpc | toWrite hpc =>
    refine h.keep rfl rfl fun hne => ⟨hne, rfl, ?_⟩
    have hat := h.at_ hne
    rw [hpc] at hat
    exact hat
  | timeoutAbort hpc | zero hpc | length hpc | zeroBlock hpc | lazyOpen hpc | unarmed hpc =>
    exact h.keep rfl rfl fun hne => ⟨hne, rfl, trivial⟩
  | failBlock => exact h.keep rfl rfl fun hne => absurd rfl hne
  | giveBack hpc =>
    refine h.keep (sinkEvents_of_log (by simp)) rfl fun hne => ?_
    exact absurd (hlazy (by rw [hpc]; trivial)) hne
  | wroteFail hpc =>
    exact h.keep (sinkEvents_of_log (by simp)) rfl fun hne => ⟨hne, rfl, trivial⟩
  | wroteOk hpc herr =>
    refine h.keep rfl rfl fun hne => ⟨hne, rfl, ?_⟩
    have hat := h.at_ hne
    rw [hpc] at hat
    obtain ⟨hcnt, hlt⟩ := hat herr
    have hsum := pumped_eq hlt (item_length hr) (h.room hne)
    have hev : ∀ p : Pump, ({ d with ring := d.ring.giveBack, pump := p } : Device).sinkEvents =
      d.sinkEvents := fun p => rfl
    dsimp only
    rw [hsum]
    split
    · trivial
    · next hg =>
      refine ⟨?_, ?_⟩
      · rw [hev]
        exact hcnt
      · have hpos : 0 < d.pump.fwLen := by omega
        by_contra hge
        exact hg ⟨hpos, Nat.le_of_not_lt hge⟩
  | calls hc _ hs => exact h.section (p := none) hB hr hc hs
  | sections hpc _ hs => exact h.section (p := some _) hB hr hpc hs

/-- **Every step keeps the bounds.** -/
theorem Extent.step (h : Extent d)
    (hB : ∀ t, B.running.bind B.nextUpdate = some t → t.size + ringbufSize ≤ 2 ^ 32)
    (hr : (system B).Reach d) (hst : (system B).step l d = some d') : Extent d' := by
  by_cases hl : ∃ n idf, l = .pump n idf
  · obtain ⟨n, idf, rfl⟩ := hl
    exact h.pump hB hr hst
  · obtain ⟨hp, hsink⟩ := nimble_step_sink hst fun n idf he => hl ⟨n, idf, he⟩
    have hev : d'.sinkEvents = d.sinkEvents := by
      rcases hsink with ⟨-, hlog⟩ | ⟨-, -, hlog⟩
      · exact sinkEvents_of_log hlog
      · simp [sinkEvents, hlog]
    have hh : d'.sink.handles = d.sink.handles := by
      rcases hsink with ⟨hs, -⟩ | ⟨-, hs, -⟩ <;> rw [hs]
      exact invalidate_handles _
    refine h.keep hev hh fun hne => ?_
    rw [hp] at hne ⊢
    refine ⟨hne, rfl, ?_⟩
    have hat := h.at_ hne
    unfold ExtentAt at hat ⊢
    rw [hev, hh, hp]
    exact hat

theorem Extent.reach
    (hB : ∀ t, B.running.bind B.nextUpdate = some t → t.size + ringbufSize ≤ 2 ^ 32)
    (hr : (system B).Reach d) : Extent d :=
  hr.invariant (I := Extent) (fun _ hs => by cases hs; exact .init)
    (fun _ _ _ hr hi hst => hi.step hB hr hst)

/-- **How far a session writes**: each `esp_ota_write` of a session of `s` bytes starts below `s`
and hands over at most one ring of bytes, so the session hands over fewer than `s + 8192` bytes;
if the partition is that much smaller than 4 GiB. -/
theorem extent_bounded
    (hB : ∀ t, B.running.bind B.nextUpdate = some t → t.size + ringbufSize ≤ 2 ^ 32)
    (hr : (system B).Reach d) {t : Partition} {s hd : Nat}
    (hb : .otaBegin t s hd espOk ∈ d.sinkEvents) :
    (∀ pre data err post, d.sinkEvents = pre ++ .otaWrite hd data err :: post →
      handed hd pre < s ∧ data.length ≤ ringbufSize) ∧
    handed hd d.sinkEvents < s + ringbufSize := by
  have h := Extent.reach hB hr
  have hs := h.starts t s hd hb
  have hpos : 0 < s := (h.begun t s hd hb).1
  exact ⟨hs, hs.handed_lt (by omega)⟩

theorem extent_bounded_fullSession :
    let d := (system .otaSlots).run fullSession .init
    handed 1 d.sinkEvents = 2 ∧ handed 1 d.sinkEvents < 2 + ringbufSize := by
  refine ⟨rfl, ?_⟩
  exact (extent_bounded (B := .otaSlots) (t := ⟨"ota_1", 0x1C0000⟩) (by rintro t ⟨⟩; decide)
    (Lib.Lts.run_reach (.init rfl) fullSession) (by decide)).2

/-- What `esp_ota_begin(target, s)` erases. -/
def erasedSize (s : Nat) : Nat := (s + (otaSectorSize - 1)) / otaSectorSize * otaSectorSize

/-- A first sector of 4096 zero bytes. -/
def fullSector : List DevLabel :=
  (List.range 8).map (fun i => .ble (.packet ([0, 0, UInt8.ofNat i] ++ List.replicate 500 0))) ++
    wholePacket 0 (List.replicate 96 0) :: recvCallback

/-- A Start with the declared length 2, and two sectors before the pump takes its item: all 4098
bytes. -/
def overrunning : List DevLabel :=
  startCommand 2 :: startCallback ++ fullSector ++ wholePacket 1 [1, 2] :: recvCallback ++
    List.replicate 6 (.pump 8191 .allOk)

/-- One write hands over two bytes more than the session has erased. -/
theorem overrun : ¬∀ d, (system .otaSlots).Reach d → ∀ t s hd,
    .otaBegin t s hd espOk ∈ d.sinkEvents → handed hd d.sinkEvents ≤ erasedSize s := by
  intro h
  have hevents : .otaBegin ⟨"ota_1", 0x1C0000⟩ 2 1 espOk ∈
        ((system .otaSlots).run overrunning .init).sinkEvents ∧
      handed 1 ((system .otaSlots).run overrunning .init).sinkEvents = 4098 := by decide +kernel
  obtain ⟨hb, hn⟩ := hevents
  have hle := h _ (Lib.Lts.run_reach (.init rfl) overrunning) _ _ _ hb
  rw [hn] at hle
  exact absurd hle (by decide)

end Device

end BleOta
