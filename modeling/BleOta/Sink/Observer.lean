import BleOta.Sink.Invariant

/-!
# What the event callback of the sink can rely on

The transport sees the sink through its events only. A session may end without one (an abort, an
invalidation); the events that come are still in the order of the state machine of `ota_sink.h`.

* `Watch`: what an observer of the events knows of the session; `watch`: how it reads them.
* `Knows`: what it knows agrees with the sink.
* `events_watched`: in every run the observer can read the events, and while a session is live it
  knows its state, epoch, target, size and sectors.
-/

namespace BleOta

variable {α : Type}

/-! ## The observer -/

/-- What an observer knows: no session, or the latest progress of the session that is written or
validated. -/
inductive Watch where
  | closed
  | writing (p : OtaSinkProgress)
  | validated (p : OtaSinkProgress)
  deriving DecidableEq

/-- The progress of the next sector of the same session. -/
def OtaSinkProgress.Follows (p q : OtaSinkProgress) : Prop :=
  p.epoch = q.epoch ∧ p.targetLabel = q.targetLabel ∧ p.imageSize = q.imageSize ∧
    p.sectorsDone = u32 (q.sectorsDone + 1)

instance (p q : OtaSinkProgress) : Decidable (p.Follows q) := by
  unfold OtaSinkProgress.Follows
  infer_instance

/-- An event. An error has the code of the IDF, and the one of its place. -/
def Watch.next : OtaSinkEvent → Watch → Option Watch
  | .sessionStart p, _ => if p.sectorsDone = 0 then some (.writing p) else none
  | .progress p, .writing q => if p.Follows q then some (.writing p) else none
  | .validated, .writing q => some (.validated q)
  | .activated, .validated _ => some .closed
  | .error code err, w =>
    if err = espOk then none
    else match code, w with
      | .beginFail, _ => some .closed
      | .writeFail, .writing q => some (.writing q)
      | .validateFail, .writing _ => some .closed
      | .activateFail, .validated q => some (.validated q)
      | _, _ => none
  | _, _ => none

/-- The observer of the events. -/
def watch : Lib.Lts Watch OtaSinkEvent := ⟨(· = .closed), Watch.next⟩

/-- The event of the sink. -/
def Ev.fired : Ev α → Option OtaSinkEvent
  | .fire e => some e
  | _ => none

/-- The events of the sink in a log. -/
def firedEvents (log : List (SinkEntry α)) : List OtaSinkEvent :=
  log.filterMap fun
    | .ev e => e.fired
    | _ => none

@[simp] theorem firedEvents_append (l l' : List (SinkEntry α)) :
    firedEvents (l ++ l') = firedEvents l ++ firedEvents l' := List.filterMap_append

@[simp] theorem firedEvents_ev (es : List (Ev α)) :
    firedEvents (es.map .ev) = es.filterMap Ev.fired := by
  rw [firedEvents, List.filterMap_map]
  rfl

theorem firedEvents_returned (o : SinkCall α) (r : Pc α ⊕ Ret) :
    firedEvents (Lib.Code.returned (ε := Ev α) o r) = [] := by
  cases r <;> rfl

/-! ## What the observer knows -/

/-- The progress is of the session of the sink. -/
def Sink.Known (s : Sink) (p : OtaSinkProgress) : Prop :=
  p.epoch = s.epoch ∧ s.target.map (·.label) = some p.targetLabel ∧ p.imageSize = s.imageSize ∧
    p.sectorsDone = s.sectorsDone

/-- The observer knows the session that is written. -/
def Watch.Writes (w : Watch) (s : Sink) : Prop := ∃ p, w = .writing p ∧ s.Known p

/-- The observer knows the session that is validated. -/
def Watch.Valid (w : Watch) (s : Sink) : Prop := ∃ p, w = .validated p ∧ s.Known p

/-- What the observer knows at each place of the caller; an invalidation is no event. -/
def Knows (w : Watch) : Lib.Place (SinkCall α) (Pc α) → SinkSt → Prop
  | .idle, s => s.sink.sessionLive = true →
      (s.sink.state = .writing → w.Writes s.sink) ∧ (s.sink.state = .validated → w.Valid s.sink)
  | .gone, _ => True
  | .busy _ (.writeFlash ..), s | .busy _ (.writeAccount ..), s | .busy _ (.finishEnd _), s
  | .busy _ (.finishLock ..), s => w.Writes s.sink
  | .busy _ (.activateUndo ier), s => w.Valid s.sink ∧ ier ≠ espOk
  | .busy _ (.activateBoot ..), s | .busy _ (.activateClear _), s
  | .busy _ (.activateClose _), s => w.Valid s.sink

variable {B : Board} {w : Watch} {s : SinkSt} {o : SinkCall α} {p : Option (Pc α)} {out : Out α}

theorem Knows.poke {place : Lib.Place (SinkCall α) (Pc α)} (h : Knows w place s) :
    Knows w place (invalidate s) := by
  cases place with
  | idle =>
    intro hl
    simp at hl
  | gone => trivial
  | busy o pc => cases pc <;> exact h

/-- The observer reads the progress of one sector. -/
theorem sectorStep_watched (save : Nat → EspErr) {s : Sink} (h : w.Writes s) :
    ∃ w', watch.exec ((sectorStep (α := α) save s).2.1.filterMap Ev.fired) w = some w' ∧
      w'.Writes (sectorStep (α := α) save s).1 := by
  obtain ⟨p, rfl, hep, hlabel, hsize, hdone⟩ := h
  obtain ⟨t, ht, hlt⟩ := Option.map_eq_some_iff.mp hlabel
  let q : OtaSinkProgress :=
    ⟨s.epoch, t.label, s.imageSize, s.bytesWritten, u32 (s.sectorsDone + 1), false⟩
  have hfired : (sectorStep (α := α) save s).2.1.filterMap Ev.fired = [.progress q] := by
    simp [sectorStep, ht, Ev.fired, q]
  have hf : q.Follows p := ⟨hep.symm, hlt, hsize.symm, by rw [hdone]⟩
  refine ⟨.writing q, ?_, q, rfl, rfl, ?_, rfl, rfl⟩
  · rw [hfired]
    show ((if q.Follows p then some (Watch.writing q) else none).bind _) = _
    rw [if_pos hf]
    rfl
  · show s.target.map (·.label) = _
    rw [ht]
    rfl

theorem sectorLoop_watched (save : Nat → EspErr) (n : Nat) {s : Sink} (ret : OtaSinkErr)
    (h : w.Writes s) : ∃ w', watch.exec ((sectorLoop (α := α) save n s ret).2.1.filterMap Ev.fired)
      w = some w' ∧ w'.Writes (sectorLoop (α := α) save n s ret).1 := by
  induction n generalizing s ret w with
  | zero => exact ⟨w, rfl, h⟩
  | succ n ih =>
    rw [sectorLoop]
    split
    · obtain ⟨w₁, hex₁, h₁⟩ := sectorStep_watched (α := α) save h
      obtain ⟨w₂, hex₂, h₂⟩ := ih (if (sectorStep (α := α) save s).2.2 = .nvs then .nvs else ret) h₁
      refine ⟨w₂, ?_, h₂⟩
      dsimp only
      rw [List.filterMap_append]
      exact Lib.Lts.exec_append.mpr ⟨w₁, hex₁, hex₂⟩
    · exact ⟨w, rfl, h⟩

/-- The deferred abort is no event of the sink. -/
theorem settleEvents_fired (s : Sink) : (settleEvents (α := α) s).filterMap Ev.fired = [] := by
  refine List.filterMap_eq_nil_iff.mpr fun e he => ?_
  rw [settleEvents_mem he]
  rfl

/-- Of a session that is not live the observer need not know anything. -/
theorem knows_dead (hl : s.sink.sessionLive = false) : Knows (α := α) w .idle s := by
  intro hl'
  rw [hl] at hl'
  cases hl'

theorem Knows.settle (h : Knows (α := α) w .idle s) :
    Knows (α := α) w .idle ⟨(settleAbort s.sink).1, s.handles⟩ := by
  rcases settleAbort_cases s.sink with ⟨-, he⟩ | ⟨-, -, he⟩ | ⟨-, -, he⟩
  · rw [he]
    exact h
  · rw [he]
    exact knows_dead rfl
  · rw [he]
    exact knows_dead rfl

/-- The session that a write leaves is not validated. -/
theorem knows_written (hb : s.sink.Busy) (h : w.Writes s.sink) : Knows (α := α) w .idle s := by
  refine fun _ => ⟨fun _ => h, fun hv => ?_⟩
  rcases hb with hb | hb <;> rw [hv] at hb <;> cases hb

/-- The sector loop of a write of the current session. -/
theorem account_eq {e len : Nat} (idf : Idf) (hc : sinkEpochIsCurrentLocked e s.sink = true) :
    ∃ sink n, sink = { s.sink with bytesWritten := u32 (s.sink.bytesWritten + u32 len) } ∧
      otaSinkWriteAccount (α := α) e len idf s =
        (⟨(sectorLoop (α := α) idf.save n sink .ok).1, s.handles⟩,
          (sectorLoop idf.save n sink .ok).2.1,
          .inr (.ret (sectorLoop (α := α) idf.save n sink .ok).2.2 none)) :=
  ⟨_, _, rfl, if_pos hc⟩

/-- The section of `ota_sink_write` after `esp_ota_write`. -/
theorem account_watched {e len : Nat} (hb : s.sink.Busy) (h : w.Writes s.sink) :
    ∃ w', watch.exec ((otaSinkWriteAccount (α := α) e len o.2 s).2.1.filterMap Ev.fired) w =
      some w' ∧ Knows w' ((sinkCode α B).next o (otaSinkWriteAccount e len o.2 s).2.2)
        (otaSinkWriteAccount (α := α) e len o.2 s).1 := by
  by_cases hc : sinkEpochIsCurrentLocked e s.sink = true
  · obtain ⟨sink, n, hsink, heq⟩ := account_eq (α := α) o.2 hc
    have hk : w.Writes sink := by
      obtain ⟨q, hw, hep, hlabel, hsize, hdone⟩ := h
      rw [hsink]
      exact ⟨q, hw, hep, hlabel, hsize, hdone⟩
    obtain ⟨w', hex, hk'⟩ := sectorLoop_watched (α := α) o.2.save n .ok hk
    obtain ⟨⟨d, q, hloop⟩, -⟩ := sectorLoop_spec (α := α) o.2.save n sink .ok
    have hstate : (sectorLoop (α := α) o.2.save n sink .ok).1.state = s.sink.state := by
      rw [hloop, hsink]
    rw [heq, next_ret]
    refine ⟨w', hex, knows_written ?_ hk'⟩
    rwa [Sink.Busy, hstate]
  · rw [otaSinkWriteAccount, if_neg hc, next_ret]
    exact ⟨w, rfl, knows_written hb h⟩

/-- **The observer reads the events of a section**, and still knows the sink after it. -/
theorem Sect.watched (hs : Sect B o p s out) (hok : SinkOk (placeAt o p) s)
    (hacc : ∀ e len, p = some (.writeAccount e len) → out = otaSinkWriteAccount e len o.2 s)
    (h : Knows w (placeAt o p) s) :
    ∃ w', watch.exec (out.2.1.filterMap Ev.fired) w = some w' ∧
      Knows w' ((sinkCode α B).next o out.2.2) out.1 := by
  by_cases hp : ∃ e len, p = some (.writeAccount e len)
  · obtain ⟨e, len, rfl⟩ := hp
    rw [hacc e len rfl]
    exact account_watched hok.place.2.2.1 h
  cases hs with
  | refused => exact ⟨w, rfl, h⟩
  | notOpened => exact ⟨w, by rw [settleEvents_fired]; rfl, h.settle⟩
  | beginFails _ hl _ hbegin =>
    refine ⟨.closed, ?_, knows_dead hl⟩
    rw [List.filterMap_append, settleEvents_fired]
    show ((if o.2.begin = espOk then none else some Watch.closed).bind _) = _
    rw [if_neg hbegin]
    rfl
  | begins =>
    refine ⟨.writing _, by rw [List.filterMap_append, settleEvents_fired]; rfl, ?_⟩
    exact fun _ => ⟨fun _ => ⟨_, rfl, rfl, rfl, rfl, rfl⟩, by rintro ⟨⟩⟩
  | writes _ _ hl _ hw => exact ⟨w, rfl, (h hl).1 hw⟩
  | flashFails hwrite =>
    have hk := h
    obtain ⟨q, rfl, -⟩ := hk
    refine ⟨.writing q, ?_, knows_written hok.place.2.2.2.1 h⟩
    show ((if o.2.write = espOk then none else some (Watch.writing q)).bind _) = _
    rw [if_neg hwrite]
    rfl
  | flashed => exact ⟨w, rfl, h⟩
  | staleAfter => exact absurd ⟨_, _, rfl⟩ hp
  | accounts => exact absurd ⟨_, _, rfl⟩ hp
  | finishes _ hl _ hw => exact ⟨w, rfl, (h hl).1 hw⟩
  | ended => exact ⟨w, rfl, h⟩
  | @endFailed _ ier _ hier =>
    obtain ⟨q, rfl, -⟩ := h
    refine ⟨.closed, ?_, knows_dead rfl⟩
    show ((if ier = espOk then none else some Watch.closed).bind _) = _
    rw [if_neg hier]
    rfl
  | validated =>
    obtain ⟨q, rfl, hk⟩ := h
    exact ⟨.validated q, rfl, fun _ => ⟨by rintro ⟨⟩, fun _ => ⟨q, rfl, hk⟩⟩⟩
  | activates _ hl _ hv => exact ⟨w, rfl, (h hl).2 hv⟩
  | bootFailed hboot => exact ⟨w, rfl, h, hboot⟩
  | booted => exact ⟨w, rfl, h⟩
  | @undone ier _ =>
    obtain ⟨⟨q, rfl, hk⟩, hier⟩ := h
    refine ⟨.validated q, ?_, fun _ => ⟨by rintro ⟨⟩, fun _ => ⟨q, rfl, hk⟩⟩⟩
    show ((if ier = espOk then none else some (Watch.validated q)).bind _) = _
    rw [if_neg hier]
    rfl
  | cleared => exact ⟨w, rfl, h⟩
  | @closed reboot _ =>
    obtain ⟨q, rfl, -⟩ := h
    refine ⟨.closed, rfl, ?_⟩
    cases reboot with
    | true => trivial
    | false => exact knows_dead rfl
  | aborts | drops => exact ⟨w, rfl, knows_dead rfl⟩

/-! ## All runs -/

theorem knows_reach {x : SinkSys α} (h : (sinkSystem α B).Reach x) :
    ∃ w, watch.exec (firedEvents x.log) .closed = some w ∧ Knows w x.place x.st := by
  refine h.monitored (T := watch) (f := fun x => firedEvents x.log)
    (R := fun x w => Knows w x.place x.st) (fun x hx => ?_) (fun m x x' w hr hk hst => ?_)
  · cases hx
    exact ⟨rfl, knows_dead rfl⟩
  · have hok := SinkOk.reach hr
    have hsect {o : SinkCall α} {p : Option (Pc α)} {out : Out α} {y : SinkSys α}
        (hy : y.st = x.st) (hlog : firedEvents y.log = firedEvents x.log)
        (hp : x.place = placeAt o p) (hs : Sect B o p x.st out)
        (hacc : ∀ e len, p = some (.writeAccount e len) →
          out = otaSinkWriteAccount e len o.2 x.st) :
        ∃ es w', firedEvents ((sinkCode α B).after o y out).log = firedEvents x.log ++ es ∧
          watch.exec es w = some w' ∧
          Knows w' ((sinkCode α B).after o y out).place ((sinkCode α B).after o y out).st := by
      rw [hp] at hok hk
      obtain ⟨w', hex, hk'⟩ := hs.watched hok hacc hk
      refine ⟨_, w', ?_, hex, ?_⟩
      · rw [Lib.Code.after_log, firedEvents_append, firedEvents_append, firedEvents_ev,
          firedEvents_returned, hlog, List.append_nil]
      · rw [Lib.Code.after_place, Lib.Code.after_st]
        exact hk'
    cases m with
    | call o =>
      obtain ⟨hp, rfl⟩ := Lib.Code.step_call hst
      exact hsect (p := none) rfl (by rw [firedEvents_append]; exact List.append_nil _) hp
        (enter_sect o x.st) (by rintro _ _ ⟨⟩)
    | run =>
      obtain ⟨o, pc, hp, rfl⟩ := Lib.Code.step_run hst
      refine hsect (p := some pc) rfl rfl hp (resume_sect o pc x.st) ?_
      rintro e len ⟨⟩
      rfl
    | poke =>
      rw [Lib.Code.step_poke hst]
      exact ⟨[], w, by rw [firedEvents_append]; rfl, rfl, hk.poke⟩

/-- **The events of the sink** can be read by the observer in every run, with invalidations at any
point; and outside of a call, while a session is live, it knows whether the session is written or
validated, and its epoch, target, size and sectors. -/
theorem events_watched {x : SinkSys α} (h : (sinkSystem α B).Reach x) :
    ∃ w, watch.exec (firedEvents x.log) .closed = some w ∧
      (x.place = .idle → x.st.sink.sessionLive = true →
        (x.st.sink.state = .writing → w.Writes x.st.sink) ∧
        (x.st.sink.state = .validated → w.Valid x.st.sink)) := by
  obtain ⟨w, hex, hk⟩ := knows_reach h
  refine ⟨w, hex, fun hp => ?_⟩
  rw [hp] at hk
  exact hk

/-- A session of five bytes, with two of them written. -/
def twoOfFive : SinkSys UInt8 :=
  (sinkSystem UInt8 .otaSlots).run
    [okCall (.sessionOpen (some ⟨5, false⟩)), okCall (.write 1 (some [1, 2])), .run, .run] sinkInit

theorem events_watched_twoOfFive :
    ∃ w, watch.exec (firedEvents twoOfFive.log) .closed = some w ∧
      (twoOfFive.place = .idle → twoOfFive.st.sink.sessionLive = true →
        (twoOfFive.st.sink.state = .writing → w.Writes twoOfFive.st.sink) ∧
        (twoOfFive.st.sink.state = .validated → w.Valid twoOfFive.st.sink)) :=
  events_watched (Lib.Lts.run_reach (.init rfl) _)

example : twoOfFive.place = .idle ∧ twoOfFive.st.sink.sessionLive = true ∧
    watch.exec (firedEvents twoOfFive.log) .closed =
      some (.writing ⟨1, "ota_1", 5, 0, 0, false⟩) := ⟨rfl, rfl, rfl⟩

end BleOta
