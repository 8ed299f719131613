import BleOta.Sink.Epochs

/-!
# What is made bootable

`Session log e hd t since`: the log ends with a session: a successful open with the epoch `e`, which
began `t` with the handle `hd`, and then the entries `since`, with no other successful open.
`BootReady log t`: the log is one at which `esp_ota_set_boot_partition(t)` may be called.

* `SessionOk`: while a session is live, it is not invalidated, and its handle has the data of the
  writes that were accepted; what is validated was ended with `ESP_OK`.
* `boot_only_validated`: every call of `esp_ota_set_boot_partition` is `BootReady`.
-/

namespace BleOta

open Lib.Code (events returned)

variable {α : Type} {B : Board}

/-- The data of an entry, if it is the return of a write with the epoch `e` that was accepted. -/
def acceptedBy (e : Nat) : SinkEntry α → List α
  | .ret (.write e' (some data), _) (.ret err _) =>
    if e' = e ∧ (err = .ok ∨ err = .nvs) then data else []
  | _ => []

/-- The data of the writes with the epoch `e` that returned `OTA_SINK_OK` or `OTA_SINK_ERR_NVS`. -/
def accepted (e : Nat) (log : List (SinkEntry α)) : List α := log.flatMap (acceptedBy e)

/-- The data that an event appends to the handle `hd`; a failing write appends nothing. -/
def flashedBy (hd : Nat) : Ev α → List α
  | .otaWrite h data err => if h = hd ∧ err = espOk then data else []
  | _ => []

/-- The data that the handle `hd` has received. -/
def flashed (hd : Nat) (es : List (Ev α)) : List α := es.flatMap (flashedBy hd)

/-- The log is `before`, a successful open with the epoch `e` that began `t` with the handle `hd`,
and `since`, with no other successful open (module doc). No write was accepted with `e` before, if
no epoch has wrapped. -/
structure Session (log : List (SinkEntry α)) (e hd : Nat) (t : Partition)
    (since : List (SinkEntry α)) : Prop where
  opened : ∃ (before : List (SinkEntry α)) (cfg : Option OtaSinkSessionCfg) (idf : Idf)
      (es : List (Ev α)) (size : Nat),
    log = before ++ [.call (.sessionOpen cfg, idf)] ++ es.map .ev ++
      [.ret (.sessionOpen cfg, idf) (.ret .ok (some e))] ++ since ∧
    .otaBegin t size hd espOk ∈ es ∧
    ((issued log).length < 2 ^ 32 - 1 → accepted e before = [])
  latest : issued since = []

/-- At the end of `log` the partition `t` may be made bootable: the log ends with the first section
of an `activate` with the epoch of the latest session, and invalidations after it; the session
began `t`, was not invalidated before, its handle was ended with `ESP_OK`, and the handle received
the data of the accepted writes of the session, which are all the accepted writes with that epoch
if no epoch has wrapped. -/
def BootReady (log : List (SinkEntry α)) (t : Option Partition) : Prop :=
  ∃ l e hd p since reboot idf k,
    log = l ++ [.call (.activate e reboot, idf)] ++ List.replicate k .poke ∧
    t = some p ∧ Session l e hd p since ∧ .poke ∉ since ∧ .ev (.otaEnd hd espOk) ∈ since ∧
    flashed hd (events log) = accepted e since ∧
    ((issued log).length < 2 ^ 32 - 1 → flashed hd (events log) = accepted e log)

/-! ## The data of a log -/

@[simp] theorem accepted_append (e : Nat) (l l' : List (SinkEntry α)) :
    accepted e (l ++ l') = accepted e l ++ accepted e l' := List.flatMap_append

@[simp] theorem accepted_map_ev (e : Nat) (es : List (Ev α)) :
    accepted e (es.map .ev : List (SinkEntry α)) = [] := by
  induction es with
  | nil => rfl
  | cons ev es ih => exact ih

@[simp] theorem accepted_nil (e : Nat) : accepted e ([] : List (SinkEntry α)) = [] := rfl

@[simp] theorem accepted_call (e : Nat) (o : SinkCall α) (l : List (SinkEntry α)) :
    accepted e (.call o :: l) = accepted e l := rfl

@[simp] theorem accepted_ev (e : Nat) (ev : Ev α) (l : List (SinkEntry α)) :
    accepted e (.ev ev :: l) = accepted e l := rfl

@[simp] theorem accepted_poke (e : Nat) (l : List (SinkEntry α)) :
    accepted e (.poke :: l) = accepted e l := rfl

@[simp] theorem accepted_pokes (e k : Nat) :
    accepted e (List.replicate k .poke : List (SinkEntry α)) = [] := by
  induction k with
  | zero => rfl
  | succ k ih => exact ih

@[simp] theorem accepted_open (e : Nat) (cfg : Option OtaSinkSessionCfg) (idf : Idf) (r : Ret)
    (l : List (SinkEntry α)) :
    accepted e (.ret (.sessionOpen cfg, idf) r :: l) = accepted e l := rfl

/-- A call that is refused accepts nothing. -/
theorem accepted_refused (e : Nat) (o : SinkCall α) {err : OtaSinkErr} (h : err ≠ .ok)
    (h' : err ≠ .nvs) : accepted e ([.ret o (.ret err none)] : List (SinkEntry α)) = [] := by
  obtain ⟨op, idf⟩ := o
  cases op with
  | write e' data => cases data <;> simp [accepted, acceptedBy, h, h']
  | _ => rfl

theorem accepted_write (e e' : Nat) (data : List α) (idf : Idf) {err : OtaSinkErr}
    (h : err = .ok ∨ err = .nvs) :
    accepted e ([.ret (.write e' (some data), idf) (.ret err none)] : List (SinkEntry α)) =
      if e' = e then data else [] := by
  by_cases he : e' = e <;> simp [accepted, acceptedBy, h, he]

@[simp] theorem flashed_append (hd : Nat) (es es' : List (Ev α)) :
    flashed hd (es ++ es') = flashed hd es ++ flashed hd es' := List.flatMap_append

@[simp] theorem flashed_nil (hd : Nat) : flashed hd ([] : List (Ev α)) = [] := rfl

@[simp] theorem flashed_cons (hd : Nat) (e : Ev α) (es : List (Ev α)) :
    flashed hd (e :: es) = flashedBy hd e ++ flashed hd es := rfl

@[simp] theorem flashedBy_begin (hd size h : Nat) (t : Partition) (err : EspErr) :
    flashedBy hd (.otaBegin t size h err : Ev α) = [] := rfl

theorem flashed_progress (hd : Nat) {es : List (Ev α)} (h : ∀ e ∈ es, e.IsProgress) :
    flashed hd es = [] := by
  refine List.flatMap_eq_nil_iff.mpr fun e he => ?_
  have hp := h e he
  cases e <;> first | rfl | exact absurd hp (by simp [Ev.IsProgress])

/-! ## The session that is live -/

variable {place place' : Lib.Place (SinkCall α) (Pc α)} {s s' : SinkSt} {e hd : Nat}
  {t : Partition} {log new since : List (SinkEntry α)}

theorem Session.append (h : Session log e hd t since) (hi : issued new = []) :
    Session (log ++ new) e hd t (since ++ new) := by
  obtain ⟨⟨before, cfg, idf, es, size, rfl, hb, ha⟩, hl⟩ := h
  refine ⟨⟨before, cfg, idf, es, size, by simp, hb, fun hn => ha ?_⟩, by simp [hl, hi]⟩
  rwa [issued_append, hi, List.append_nil] at hn

/-- If no epoch has wrapped, the writes accepted with the epoch of a session are its own. -/
theorem Session.accepted_eq (h : Session log e hd t since)
    (hn : (issued log).length < 2 ^ 32 - 1) : accepted e log = accepted e since := by
  obtain ⟨⟨before, cfg, idf, es, size, rfl, -, ha⟩, -⟩ := h
  simp only [accepted_append, accepted_call, accepted_map_ev, accepted_open, accepted_nil, ha hn,
    List.nil_append]

/-- The data of a write. -/
def Op.data : Op α → List α
  | .write _ (some data) => data
  | _ => []

/-- The data that `ota_sink_write` has written and not accounted. -/
def inFlight : Lib.Place (SinkCall α) (Pc α) → List α
  | .busy o (.writeAccount _ _) => o.1.data
  | _ => []

@[simp] theorem inFlight_idle : inFlight (.idle : Lib.Place (SinkCall α) (Pc α)) = [] := rfl

/-- The live session (module doc). -/
structure Live (place : Lib.Place (SinkCall α) (Pc α)) (s : SinkSt) (log : List (SinkEntry α))
    (hd : Nat) (t : Partition) (since : List (SinkEntry α)) : Prop where
  session : Session log s.sink.epoch hd t since
  clean : .poke ∉ since
  target : s.sink.target = some t
  handle : s.sink.handle ≠ 0 → s.sink.handle = hd
  ending : ∀ o h, place = .busy o (.finishEnd h) → h = hd
  ended : ∀ o h, place = .busy o (.finishLock h espOk) → .ev (.otaEnd hd espOk) ∈ since
  valid : s.sink.state = .validated ∨ s.sink.state = .activated → .ev (.otaEnd hd espOk) ∈ since
  data : flashed hd (events log) = accepted s.sink.epoch since ++ inFlight place

theorem Live.extend (h : Live place s log hd t since) (hi : issued new = []) (hp : .poke ∉ new)
    (he : s'.sink.epoch = s.sink.epoch) (ht : s'.sink.target = s.sink.target)
    (hh : s'.sink.handle ≠ 0 → s'.sink.handle = s.sink.handle)
    (hending : ∀ o h, place' = .busy o (.finishEnd h) → h = hd)
    (hended : ∀ o h, place' = .busy o (.finishLock h espOk) → .ev (.otaEnd hd espOk) ∈ since ++ new)
    (hvalid : s'.sink.state = .validated ∨ s'.sink.state = .activated →
      .ev (.otaEnd hd espOk) ∈ since ++ new)
    (hdata : inFlight place ++ flashed hd (events new) =
      accepted s.sink.epoch new ++ inFlight place') :
    Live place' s' (log ++ new) hd t (since ++ new) where
  session := he ▸ h.session.append hi
  clean hm := (List.mem_append.mp hm).elim h.clean hp
  target := ht ▸ h.target
  handle hne := by
    have heq := hh hne
    rw [heq] at hne ⊢
    exact h.handle hne
  ending := hending
  ended := hended
  valid := hvalid
  data := by
    rw [Lib.Code.events_append, flashed_append, h.data, accepted_append, he, List.append_assoc,
      hdata, List.append_assoc]

/-! ## Entries that do nothing to the sessions -/

/-- The entries open no session, have no invalidation, and neither accept data nor write it. -/
structure Quiet (new : List (SinkEntry α)) : Prop where
  issued : issued new = []
  poke : .poke ∉ new
  accepted : ∀ e, accepted e new = []
  flashed : ∀ h, flashed h (events new) = []

theorem Quiet.nil : Quiet ([] : List (SinkEntry α)) :=
  ⟨rfl, List.not_mem_nil, fun _ => rfl, fun _ => rfl⟩

theorem Quiet.append {new' : List (SinkEntry α)} (h : Quiet new) (h' : Quiet new') :
    Quiet (new ++ new') where
  issued := by rw [issued_append, h.issued, h'.issued, List.append_nil]
  poke hm := (List.mem_append.mp hm).elim h.poke h'.poke
  accepted e := by rw [accepted_append, h.accepted, h'.accepted, List.append_nil]
  flashed hd := by
    rw [Lib.Code.events_append, flashed_append, h.flashed, h'.flashed, List.append_nil]

/-- Events that append nothing to a handle. -/
theorem Quiet.evs {es : List (Ev α)} (h : ∀ hd, BleOta.flashed hd es = []) :
    Quiet (es.map .ev : List (SinkEntry α)) :=
  ⟨issued_map_ev es, by simp, fun e => accepted_map_ev e es, fun hd => by
    rw [Lib.Code.events_map_ev, h]⟩

/-- The return of a call that is refused. -/
theorem Quiet.refused (o : SinkCall α) {err : OtaSinkErr} (he : err ≠ .ok) (he' : err ≠ .nvs) :
    Quiet ([.ret o (.ret err none)] : List (SinkEntry α)) :=
  ⟨by simp, by simp, fun e => accepted_refused e o he he', fun _ => rfl⟩

/-- The return of an open that fails. -/
theorem Quiet.opened {cfg : Option OtaSinkSessionCfg} {idf : Idf} {err : OtaSinkErr} :
    Quiet ([.ret (.sessionOpen cfg, idf) (.ret err none)] : List (SinkEntry α)) :=
  ⟨by simp, by simp, fun _ => rfl, fun _ => rfl⟩

/-- At the place no handle is about to be ended, and no call of `esp_ota_set_boot_partition`
follows. -/
def Plain : Lib.Place (SinkCall α) (Pc α) → Prop
  | .busy _ (.finishEnd _) => False
  | .busy _ (.finishLock _ err) => err ≠ espOk
  | .busy _ (.activateBoot _ _) => False
  | _ => True

/-- The session is as it was, but that it may have ended. -/
structure Unmoved (s s' : SinkSt) : Prop where
  handles : s'.handles = s.handles
  epoch : s'.sink.epoch = s.sink.epoch
  target : s'.sink.target = s.sink.target
  live : s'.sink.sessionLive = true → s.sink.sessionLive = true
  handle : s'.sink.handle = s.sink.handle
  state : s'.sink.state = .validated ∨ s'.sink.state = .activated →
    s.sink.state = .validated ∨ s.sink.state = .activated

theorem Unmoved.refl (s : SinkSt) : Unmoved s s := ⟨rfl, rfl, rfl, id, rfl, id⟩

theorem Live.quiet (h : Live place s log hd t since) (hn : Quiet new) (hu : Unmoved s s')
    (hp : Plain place') (hin : inFlight place' = inFlight place) :
    Live place' s' (log ++ new) hd t (since ++ new) := by
  refine h.extend hn.issued hn.poke hu.epoch hu.target (fun _ => hu.handle) ?_ ?_ ?_ ?_
  · rintro o hd' rfl
    exact hp.elim
  · rintro o hd' rfl
    exact absurd rfl hp
  · exact fun hv => List.mem_append_left _ (h.valid (hu.state hv))
  · rw [hn.flashed, hn.accepted, hin, List.append_nil, List.nil_append]

/-- The sessions of a state and a log (module doc). -/
structure SessionOk (place : Lib.Place (SinkCall α) (Pc α)) (s : SinkSt)
    (log : List (SinkEntry α)) : Prop where
  unissued : ∀ e, e ∉ issued log → accepted e log = []
  unmade : ∀ h, s.handles < h → flashed h (events log) = []
  live : s.sink.sessionLive = true → ∃ hd t since, Live place s log hd t since
  boot : ∀ o p r, place = .busy o (.activateBoot p r) → BootReady log p

/-- After entries that accept no data, write none, and open no session. -/
theorem SessionOk.keep (h : SessionOk place s log) (hi : issued new = [])
    (ha : ∀ e, accepted e new = []) (hf : ∀ h, s.handles < h → flashed h (events new) = [])
    (hm : s'.handles = s.handles)
    (hl : s'.sink.sessionLive = true →
      s.sink.sessionLive = true ∧ ∀ hd t since, Live place s log hd t since →
        ∃ hd t since, Live place' s' (log ++ new) hd t since)
    (hb : ∀ o p r, place' = .busy o (.activateBoot p r) → BootReady (log ++ new) p) :
    SessionOk place' s' (log ++ new) where
  unissued e he := by
    rw [issued_append, hi, List.append_nil] at he
    rw [accepted_append, h.unissued e he, ha]
    rfl
  unmade hd hlt := by
    rw [hm] at hlt
    rw [Lib.Code.events_append, flashed_append, h.unmade hd hlt, hf hd hlt]
    rfl
  live hs := by
    obtain ⟨hls, hk⟩ := hl hs
    obtain ⟨hd, t, since, hlive⟩ := h.live hls
    exact hk hd t since hlive
  boot := hb

/-! ## The sections -/

variable {o : SinkCall α} {p : Option (Pc α)} {out : Out α} {log' : List (SinkEntry α)}

@[simp] theorem returned_inl (pc : Pc α) :
    (returned o (.inl pc : Pc α ⊕ Ret) : List (SinkEntry α)) = [] := rfl

@[simp] theorem returned_inr (r : Ret) :
    (returned o (.inr r : Pc α ⊕ Ret) : List (SinkEntry α)) = [.ret o r] := rfl

theorem Plain.not_boot (hp : Plain place') {p : Option Partition} {r : Bool} :
    place' ≠ .busy o (.activateBoot p r) := by
  rintro rfl
  exact hp.elim

/-- After entries that leave no session live. -/
theorem SessionOk.dead (h : SessionOk place s log) (hn : Quiet new)
    (hm : s'.handles = s.handles) (hl : s'.sink.sessionLive = false) (hp : Plain place') :
    SessionOk place' s' (log ++ new) :=
  h.keep hn.issued hn.accepted (fun hd _ => hn.flashed hd) hm
    (fun hl' => by rw [hl] at hl'; cases hl') (fun _ _ _ hx => absurd hx hp.not_boot)

/-- After entries that change nothing of the session. -/
theorem SessionOk.quiet (h : SessionOk place s log) (hn : Quiet new) (hu : Unmoved s s')
    (hp : Plain place') (hin : inFlight place' = inFlight place) :
    SessionOk place' s' (log ++ new) :=
  h.keep hn.issued hn.accepted (fun hd _ => hn.flashed hd) hu.handles
    (fun hl' => ⟨hu.live hl', fun hd t since hlive =>
      ⟨hd, t, since ++ new, hlive.quiet hn hu hp hin⟩⟩)
    (fun _ _ _ hx => absurd hx hp.not_boot)

/-- The deferred abort. -/
theorem SessionOk.settle (h : SessionOk .idle s log) :
    SessionOk .idle ⟨(settleAbort s.sink).1, s.handles⟩
      (log ++ (settleEvents s.sink).map .ev) := by
  rcases settleAbort_cases s.sink with ⟨-, he⟩ | ⟨-, -, he⟩ | ⟨-, -, he⟩ <;>
    rw [he, settleEvents_eq he]
  · simpa using h
  · exact h.keep rfl (fun _ => rfl) (fun _ _ => rfl) rfl (fun hl => by cases hl) (by simp)
  · exact h.keep rfl (fun _ => rfl) (fun _ _ => rfl) rfl (fun hl => by cases hl) (by simp)

theorem settleAbort_nextEpoch (s : Sink) :
    (settleAbort s).1.nextEpoch = s.nextEpoch := by
  rcases settleAbort_cases s with ⟨-, he⟩ | ⟨-, -, he⟩ | ⟨-, -, he⟩ <;> rw [he] <;> rfl

theorem settleAbort_flashed (s : Sink) (hd : Nat) :
    flashed hd (settleEvents s : List (Ev α)) = [] := by
  rw [settleEvents]
  cases (settleAbort s).2 <;> rfl

/-- A successful open starts the session. -/
theorem SessionOk.begun {cfg : Option OtaSinkSessionCfg} {idf : Idf} {es : List (Ev α)}
    {size : Nat} {ev : Ev α} (h : SessionOk .idle s log') (hok : EpochOk s log')
    (hes : ∀ h, flashed h es = []) (hev : ∀ h, flashedBy h ev = []) (hlog : log = log' ++
      [.call (.sessionOpen cfg, idf)] ++
        (es ++ [.otaBegin t size (s.handles + 1) espOk, ev]).map .ev ++
        [.ret (.sessionOpen cfg, idf) (.ret .ok (some s.sink.nextEpoch))])
    (he : s'.sink.epoch = s.sink.nextEpoch) (ht : s'.sink.target = some t)
    (hst : s'.sink.state = .writing) (hh : s'.sink.handle = s.handles + 1)
    (hm : s'.handles = s.handles + 1) : SessionOk .idle s' log := by
  have hil : issued log = issued log' ++ [s.sink.nextEpoch] := by
    simp [hlog]
  have hacc : ∀ e, accepted e log = accepted e log' := fun e => by
    simp [hlog]
  have hfl : ∀ h, flashed h (events log) = flashed h (events log') := fun h => by
    simp [hlog, hes h, hev h]
  refine ⟨fun e hn => ?_, fun hd hlt => ?_, fun _ => ⟨s.handles + 1, t, [], ?_⟩, by simp⟩
  · rw [hacc]
    exact h.unissued e fun hm => hn (hil ▸ List.mem_append_left _ hm)
  · rw [hfl]
    exact h.unmade hd (by omega)
  · refine ⟨⟨⟨log', cfg, idf, es ++ [.otaBegin t size (s.handles + 1) espOk, ev], size, ?_, ?_,
      fun hn => ?_⟩, rfl⟩, List.not_mem_nil, ht,
      fun _ => hh, by simp, by simp, by simp [hst], ?_⟩
    · rw [hlog, he, List.append_nil]
    · simp
    · -- The new epoch was not issued before.
      rw [he]
      refine h.unissued _ fun hm => ?_
      rw [hil, List.length_append, List.length_singleton] at hn
      rw [(hok.exact (by omega)).1, hok.next] at hm
      obtain ⟨i, hi, hie⟩ := List.mem_map.mp hm
      have := List.mem_range.mp hi
      simp only [u32] at hie
      omega
    · rw [hfl, h.unmade _ (Nat.lt_succ_self _)]
      rfl

/-- A write that is accounted. -/
theorem SessionOk.accounted {e : Nat} {data : List α} {idf : Idf} {n : Nat} {es : List (Ev α)}
    {err : OtaSinkErr} (h : SessionOk (.busy (.write e (some data), idf) (.writeAccount e n)) s log)
    (hep : EpochOk s log) (hl : s.sink.sessionLive = true) (he : e = s.sink.epoch)
    (hst : s.sink.state = .writing) (hes : ∀ ev ∈ es, ev.IsProgress)
    (herr : err = .ok ∨ err = .nvs) (hs : s'.handles = s.handles)
    (he' : s'.sink.epoch = s.sink.epoch) (ht : s'.sink.target = s.sink.target)
    (hst' : s'.sink.state = s.sink.state) (hh : s'.sink.handle = s.sink.handle) :
    SessionOk .idle s'
      (log ++ es.map .ev ++ [.ret (.write e (some data), idf) (.ret err none)]) := by
  subst he
  have hfl : ∀ hd, flashed hd (events (es.map .ev ++
      [.ret (.write s.sink.epoch (some data), idf) (.ret err none)] : List (SinkEntry α))) = [] :=
    fun hd => by simp [flashed_progress hd hes]
  have hacc : ∀ e, accepted e (es.map .ev ++
      [.ret (.write s.sink.epoch (some data), idf) (.ret err none)] : List (SinkEntry α)) =
        if s.sink.epoch = e then data else [] := fun e => by
    rw [accepted_append, accepted_map_ev, List.nil_append, accepted_write _ _ _ _ herr]
  rw [List.append_assoc]
  refine ⟨fun e hn => ?_, fun hd hlt => ?_, fun _ => ?_, by simp⟩
  · -- The epoch of a live session was issued.
    have hne : s.sink.epoch ≠ e := by
      rintro rfl
      have hpos : 0 < (issued log).length := List.length_pos_iff.mpr (hep.live hl).1
      rw [issued_append] at hn
      refine hn (List.mem_append_left _ ?_)
      rw [hep.list, hep.cur]
      refine List.mem_map.mpr ⟨(issued log).length - 1, List.mem_range.mpr (by omega), ?_⟩
      rw [Nat.sub_add_cancel hpos]
    rw [accepted_append, hacc, if_neg hne, List.append_nil]
    exact h.unissued e fun hm => hn (by rw [issued_append]; exact List.mem_append_left _ hm)
  · rw [Lib.Code.events_append, flashed_append, hfl, List.append_nil]
    exact h.unmade hd (hs ▸ hlt)
  · obtain ⟨hd, t, since, hlive⟩ := h.live hl
    refine ⟨hd, t, _, hlive.extend (by simp) (by simp) he' ht (fun _ => hh) (by simp) (by simp) ?_
      ?_⟩
    · rw [hst', hst]
      simp
    · rw [hfl, hacc, if_pos rfl]
      rfl

theorem SessionOk.call (h : SessionOk .idle s log) (o : SinkCall α) :
    SessionOk .idle s (log ++ [.call o]) :=
  h.quiet ⟨rfl, by simp, fun _ => rfl, fun _ => rfl⟩ (.refl s) trivial rfl

/-- A write whose session is no longer the live one in `writing` is the last of its session. -/
theorem SinkOk.dead_of_stale {e n : Nat} (h : SinkOk (.busy o (.writeAccount e n)) s)
    (hst : s.sink.sessionLive = true → e = s.sink.epoch → s.sink.state ≠ .writing) :
    s.sink.sessionLive = false := by
  obtain ⟨-, h0, hb, he⟩ := h.place
  by_contra hl
  rw [Bool.not_eq_false] at hl
  rcases hb with hb | hb
  · exact hst hl he.symm hb
  · simp [h.dead (.inr hb)] at hl

/-- `esp_ota_write` has written the data, which is not accounted yet. -/
theorem SessionOk.written {e : Nat} {data : List α} {idf : Idf}
    (h : SessionOk (.busy (.write e (some data), idf) (.writeFlash e s.sink.handle data)) s log)
    (h0 : s.sink.handle ≠ 0) (hle : s.sink.handle ≤ s.handles) :
    SessionOk (.busy (.write e (some data), idf) (.writeAccount e data.length)) s
      (log ++ [.ev (.otaWrite s.sink.handle data espOk)]) := by
  refine h.keep rfl (fun _ => rfl) (fun hd hlt => ?_) rfl
    (fun hl => ⟨hl, fun hd t since hlive => ?_⟩) (by simp)
  · have hne : s.sink.handle ≠ hd := by omega
    simp [flashedBy, hne]
  · refine ⟨hd, t, _, hlive.extend rfl (by simp) rfl rfl (fun _ => rfl) (by simp) (by simp)
      (fun hv => List.mem_append_left _ (hlive.valid hv)) ?_⟩
    simp [flashedBy, hlive.handle h0, inFlight, Op.data]

/-- `ota_sink_finish` takes the handle. -/
theorem SessionOk.finishing (h : SessionOk .idle s log) (h0 : s.sink.handle ≠ 0) :
    SessionOk (.busy o (.finishEnd s.sink.handle)) ⟨{ s.sink with handle := 0 }, s.handles⟩
      (log ++ []) := by
  refine h.keep rfl (fun _ => rfl) (fun _ _ => rfl) rfl (fun hl => ⟨hl, fun hd t since hlive => ?_⟩)
    (by simp)
  refine ⟨hd, t, _, hlive.extend rfl (by simp) rfl rfl (fun hz => absurd rfl hz)
    (fun o' hd' hp => ?_) (by simp) (fun hv => List.mem_append_left _ (hlive.valid hv)) rfl⟩
  cases hp
  exact hlive.handle h0

/-- `esp_ota_end` has returned `err`. -/
theorem SessionOk.handleEnded {err : EspErr} (h : SessionOk (.busy o (.finishEnd hd)) s log) :
    SessionOk (.busy o (.finishLock hd err)) s (log ++ [.ev (.otaEnd hd err)]) := by
  refine h.keep rfl (fun _ => rfl) (fun _ _ => rfl) rfl
    (fun hl => ⟨hl, fun hd' t since hlive => ?_⟩) (by simp)
  refine ⟨hd', t, _, hlive.extend rfl (by simp) rfl rfl (fun _ => rfl) (by simp)
    (fun o' hd'' hp => ?_) (fun hv => List.mem_append_left _ (hlive.valid hv)) rfl⟩
  obtain rfl : hd = hd' := hlive.ending _ _ rfl
  cases hp
  simp

/-- The session whose handle was ended with `ESP_OK` is validated. -/
theorem SessionOk.validates {e : Nat} {idf : Idf}
    (h : SessionOk (.busy (.finish e, idf) (.finishLock hd espOk)) s log) :
    SessionOk .idle ⟨{ s.sink with state := .validated }, s.handles⟩
      (log ++ [.ev (.fire .validated), .ret (.finish e, idf) (.ret .ok none)]) := by
  refine h.keep (by simp) (fun _ => rfl) (fun _ _ => rfl) rfl
    (fun hl => ⟨hl, fun hd' t since hlive => ?_⟩) (by simp)
  exact ⟨hd', t, _, hlive.extend (by simp) (by simp) rfl rfl (fun _ => rfl) (by simp) (by simp)
    (fun _ => List.mem_append_left _ (hlive.ended _ _ rfl)) rfl⟩

/-- At the call of `esp_ota_set_boot_partition` the log is ready for it. -/
theorem SessionOk.activating {reboot : Bool} {idf : Idf} (h : SessionOk .idle s log)
    (hl : s.sink.sessionLive = true) (hv : s.sink.state = .validated) :
    SessionOk (.busy (.activate s.sink.epoch reboot, idf) (.activateBoot s.sink.target reboot))
      ⟨{ s.sink with state := .activated }, s.handles⟩
      (log ++ [.call (.activate s.sink.epoch reboot, idf)] ++ []) := by
  refine (h.call (.activate s.sink.epoch reboot, idf)).keep rfl (fun _ => rfl) (fun _ _ => rfl) rfl
    (fun hl => ⟨hl, fun hd t since hlive => ?_⟩) (fun o p r hp => ?_)
  · exact ⟨hd, t, _, hlive.extend rfl (by simp) rfl rfl (fun _ => rfl) (by simp) (by simp)
      (fun _ => List.mem_append_left _ (hlive.valid (.inl hv))) rfl⟩
  · cases hp
    obtain ⟨hd, t, since, hlive⟩ := h.live hl
    refine ⟨log, _, hd, t, since, reboot, idf, 0, by simp, hlive.target, hlive.session, hlive.clean,
      hlive.valid (.inl hv), ?_, fun hn => ?_⟩
    · simpa using hlive.data
    · have ha := hlive.session.accepted_eq (by simpa using hn)
      simpa [ha] using hlive.data

/-- **Every section keeps the sessions.** The first section is on the log of the call before. -/
theorem Sect.session (hs : Sect B o p s out) (hok : SinkOk (placeAt o p) s) (hep : EpochOk s log)
    (h : SessionOk (placeAt o p) s log)
    (hc : p = none → ∃ l, log = l ++ [.call o] ∧ SessionOk .idle s l ∧ EpochOk s l) :
    SessionOk ((sinkCode α B).next o out.2.2) out.1
      (log ++ out.2.1.map .ev ++ returned o out.2.2) := by
  cases hs with
  | refused he he' =>
    rw [List.append_assoc]
    exact h.quiet (Quiet.nil.append (.refused o he he')) (.refl s) trivial rfl
  | notOpened ho _ =>
    obtain ⟨op, idf⟩ := o
    cases ho
    exact (SessionOk.settle h).quiet Quiet.opened (.refl _) trivial rfl
  | beginFails ho hl =>
    obtain ⟨op, idf⟩ := o
    cases ho
    rw [List.map_append, ← List.append_assoc, List.append_assoc _ _ (returned _ _)]
    exact (SessionOk.settle h).dead ((Quiet.evs fun _ => rfl).append .opened) rfl hl trivial
  | begins ho =>
    obtain ⟨op, idf⟩ := o
    cases ho
    obtain ⟨l, rfl, hl, hel⟩ := hc rfl
    exact hl.begun hel (fun hd => settleAbort_flashed s.sink hd) (fun _ => rfl)
      (by rw [settleAbort_nextEpoch]; rfl) (settleAbort_nextEpoch s.sink) rfl rfl rfl rfl
  | writes =>
    rw [List.append_assoc]
    exact h.quiet Quiet.nil (.refl s) trivial rfl
  | flashFails hw =>
    rw [List.append_assoc]
    refine h.quiet ((Quiet.evs fun hd' => ?_).append (.refused o (by decide) (by decide))) (.refl s)
      trivial rfl
    simp [flashedBy, hw, sinkFireError]
  | @flashed e hd data _ hw =>
    obtain ⟨ho, hh, h0, -, -⟩ := hok.place
    obtain ⟨op, idf⟩ := o
    cases ho
    subst hh
    rw [List.append_assoc]
    exact SessionOk.written h h0 hok.handle_le
  | staleAfter hst =>
    rw [List.append_assoc]
    exact h.dead (Quiet.nil.append (.refused o (by decide) (by decide))) rfl
      (SinkOk.dead_of_stale hok hst) trivial
  | accounts hl he hw hes herr =>
    obtain ⟨⟨data, ho, -⟩, -⟩ := hok.place
    obtain ⟨op, idf⟩ := o
    cases ho
    exact SessionOk.accounted h hep hl he hw hes herr rfl rfl rfl rfl rfl
  | finishes ho hl he hw =>
    rw [List.append_assoc]
    exact SessionOk.finishing h (hok.place.mpr (.inl hw))
  | ended =>
    rw [List.append_assoc]
    exact SessionOk.handleEnded h
  | endFailed =>
    rw [List.append_assoc]
    exact h.dead ((Quiet.evs fun _ => rfl).append (.refused o (by decide) (by decide))) rfl rfl
      trivial
  | validated =>
    obtain ⟨ho, -⟩ := hok.place
    obtain ⟨op, idf⟩ := o
    cases ho
    rw [List.append_assoc]
    exact SessionOk.validates h
  | activates ho hl he hv =>
    obtain ⟨op, idf⟩ := o
    cases ho
    subst he
    obtain ⟨l, rfl, hsl, -⟩ := hc rfl
    rw [List.append_assoc]
    exact hsl.activating hl hv
  | bootFailed | booted =>
    rw [List.append_assoc]
    exact h.quiet ((Quiet.evs fun _ => rfl).append .nil) (.refl s) trivial rfl
  | undone =>
    obtain ⟨-, -, ha⟩ := hok.place
    rw [List.append_assoc]
    exact h.quiet ((Quiet.evs fun _ => rfl).append (.refused o (by decide) (by decide)))
      ⟨rfl, rfl, rfl, id, rfl, fun _ => .inr ha⟩ trivial rfl
  | cleared =>
    rw [List.append_assoc]
    exact h.quiet ((Quiet.evs fun _ => rfl).append .nil) (.refl s) trivial rfl
  | @closed reboot _ =>
    obtain ⟨ho, -⟩ := hok.place
    obtain ⟨op, idf⟩ := o
    cases ho
    rw [List.append_assoc]
    refine h.dead ((Quiet.evs fun _ => rfl).append ?_) rfl rfl ?_
    · cases reboot <;> exact ⟨rfl, by simp, fun _ => rfl, fun _ => rfl⟩
    · cases reboot <;> trivial
  | aborts ho | drops ho =>
    obtain ⟨op, idf⟩ := o
    cases ho
    rw [List.append_assoc]
    exact h.dead ((Quiet.evs fun _ => rfl).append ⟨rfl, by simp, fun _ => rfl, fun _ => rfl⟩) rfl
      rfl trivial

/-! ## Runs -/

theorem BootReady.poke {t : Option Partition} (h : BootReady log t) :
    BootReady (log ++ [.poke]) t := by
  obtain ⟨l, e, hd, p, since, reboot, idf, k, rfl, ht, hs, hc, he, hf, ha⟩ := h
  refine ⟨l, e, hd, p, since, reboot, idf, k + 1, ?_, ht, hs, hc, he, by simpa using hf,
    fun hn => ?_⟩
  · rw [List.replicate_succ', ← List.append_assoc]
  · simpa using ha (by simpa using hn)

theorem SessionOk.poke (h : SessionOk place s log) :
    SessionOk place (invalidate s) (log ++ [.poke]) :=
  h.keep rfl (fun _ => rfl) (fun _ _ => rfl) rfl (fun hl => by simp at hl)
    (fun o p r hp => (h.boot o p r hp).poke)

theorem SessionOk.reach {x : SinkSys α} (h : (sinkSystem α B).Reach x) :
    SessionOk x.place x.st x.log := by
  refine h.invariant (I := fun x => SessionOk x.place x.st x.log) (fun x hx => ?_)
    (fun m x x' hr hse hst => ?_)
  · cases hx
    exact ⟨fun _ _ => rfl, fun _ _ => rfl, (fun hl => by cases hl), by simp [sinkInit]⟩
  · have hok := SinkOk.reach hr
    have hep := EpochOk.reach hr
    rcases sinkCode_step_cases hst with ⟨o, out, -, hp, hs, rfl⟩ | ⟨o, p, out, -, hp, hs, rfl⟩ |
      ⟨-, rfl⟩
    · rw [hp] at hok hse
      rw [Lib.Code.after_st, Lib.Code.after_place, Lib.Code.after_log]
      exact hs.session hok (hep.keep rfl (by simp) rfl rfl id) (SessionOk.call hse o)
        fun _ => ⟨x.log, rfl, hse, hep⟩
    · rw [hp] at hok hse
      rw [Lib.Code.after_st, Lib.Code.after_place, Lib.Code.after_log]
      exact hs.session hok hep hse (fun hn => by cases hn)
    · exact hse.poke

/-- A section that calls `esp_ota_set_boot_partition` does that first. -/
theorem Sect.setBoot {t : Option Partition} {err : EspErr} (hs : Sect B o p s out)
    (hm : .setBoot t err ∈ out.2.1) :
    (∃ r, p = some (.activateBoot t r)) ∧ out.2.1 = [.setBoot t err] := by
  cases hs with
  | bootFailed | booted =>
    obtain ⟨rfl, rfl⟩ := by simpa using hm
    exact ⟨⟨_, rfl⟩, rfl⟩
  | notOpened | beginFails | begins =>
    rcases settleAbort_cases s.sink with ⟨-, he⟩ | ⟨-, -, he⟩ | ⟨-, -, he⟩ <;>
      simp [settleEvents_eq he, sinkFireError] at hm
  | accounts _ _ _ hes => exact absurd (hes _ hm) (by simp [Ev.IsProgress])
  | refused | writes | flashFails | flashed | staleAfter | finishes | ended | endFailed | validated
    | activates | undone | cleared | closed | aborts | drops =>
    simp [sinkFireError] at hm

theorem ev_not_mem_returned (ev : Ev α) (r : Pc α ⊕ Ret) :
    .ev ev ∉ (returned o r : List (SinkEntry α)) := by
  cases r <;> simp [returned]

/-- An entry that is not in the new part of a log is in the old one. -/
theorem split_old {β : Type} {l new pre post : List β} {a : β} (h : l ++ new = pre ++ a :: post)
    (ha : a ∉ new) : ∃ post', l = pre ++ a :: post' := by
  rcases List.append_eq_append_iff.mp h with ⟨c, rfl, hc⟩ | ⟨c, rfl, hc⟩
  · exact absurd (hc ▸ List.mem_append_right c (List.mem_cons_self ..)) ha
  · cases c with
    | nil => exact absurd (by rw [← List.nil_append new, ← hc]; exact List.mem_cons_self ..) ha
    | cons b c =>
      cases hc
      exact ⟨c, rfl⟩

/-- Every call of `esp_ota_set_boot_partition` in the log is at a `BootReady` one. -/
def Booted (log : List (SinkEntry α)) : Prop :=
  ∀ pre post t err, log = pre ++ .ev (.setBoot t err) :: post → BootReady pre t

theorem Booted.extend (h : Booted log) (hn : ∀ t err, .ev (.setBoot t err) ∉ new) :
    Booted (log ++ new) := by
  intro pre post t err he
  obtain ⟨post', hl⟩ := split_old he (hn t err)
  exact h _ _ _ _ hl

theorem Sect.boots (hs : Sect B o p s out) (h : SessionOk (placeAt o p) s log) (hb : Booted log) :
    Booted (log ++ out.2.1.map .ev ++ returned o out.2.2) := by
  refine Booted.extend ?_ fun t err => ev_not_mem_returned _ _
  by_cases hm : ∃ t err, .setBoot t err ∈ out.2.1
  · obtain ⟨t, err, hm⟩ := hm
    obtain ⟨⟨r, rfl⟩, hes⟩ := hs.setBoot hm
    rw [hes]
    intro pre post t' err' he
    -- The call is the last entry, or an old one.
    rcases List.eq_nil_or_concat post with rfl | ⟨post, e, rfl⟩
    · obtain ⟨rfl, he⟩ := List.append_inj' he rfl
      obtain ⟨rfl, rfl⟩ : t = t' ∧ err = err' := by simpa using he
      exact h.boot o t r rfl
    · rw [List.concat_eq_append, ← List.cons_append, ← List.append_assoc] at he
      exact hb _ _ _ _ (List.append_inj' he rfl).1
  · refine hb.extend fun t err hmem => hm ⟨t, err, ?_⟩
    obtain ⟨ev, hev, he⟩ := List.mem_map.mp hmem
    cases he
    exact hev

/-- **Only a validated, uninterrupted image is made bootable**: whenever the sink calls
`esp_ota_set_boot_partition`, the log up to the call is `BootReady`. -/
theorem boot_only_validated {x : SinkSys α} (h : (sinkSystem α B).Reach x)
    {pre post : List (SinkEntry α)} {t : Option Partition} {err : EspErr}
    (hlog : x.log = pre ++ .ev (.setBoot t err) :: post) : BootReady pre t := by
  refine h.invariant (I := fun x => Booted x.log) (fun x hx => ?_) (fun m x x' hr hb hst => ?_)
    pre post t err hlog
  · cases hx
    intro pre post t err he
    cases pre <;> cases he
  · have hse := SessionOk.reach hr
    rcases sinkCode_step_cases hst with ⟨o, out, -, hp, hs, rfl⟩ | ⟨o, p, out, -, hp, hs, rfl⟩ |
      ⟨-, rfl⟩
    · rw [hp] at hse
      rw [Lib.Code.after_log]
      exact hs.boots (SessionOk.call hse o) (hb.extend (by simp))
    · rw [hp] at hse
      rw [Lib.Code.after_log]
      exact hs.boots hse hb
    · exact hb.extend (by simp)

/-- A whole session makes its partition bootable. -/
theorem boot_only_validated_wholeSession :
    let log := ((sinkSystem UInt8 .otaSlots).run wholeSession sinkInit).log
    BootReady (log.take 13) (some ⟨"ota_1", 0x1C0000⟩) := by
  intro log
  have hlog : log = log.take 13 ++ .ev (.setBoot (some ⟨"ota_1", 0x1C0000⟩) espOk) :: [] := rfl
  exact boot_only_validated wholeSession_reach hlog

end BleOta
