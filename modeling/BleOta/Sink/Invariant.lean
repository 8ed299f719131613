import BleOta.Sink.Steps

/-!
# The invariant of the sink

`SinkOk`: how the state, the live flag, the handle and the place of the serial caller belong
together. Outside a call there is a handle exactly in the states `WRITING` and `ABORT_PENDING`; a
session that is written is live; without an abort to do, a dead session is not written. An
invalidation keeps all of that (`SinkOk.poke`), and so does each section (`Sect.ok`).

* `SinkOk.reach`: it holds in every reachable state.
-/

namespace BleOta

variable {α : Type}

/-- The session is written, or was until an invalidation. -/
def Sink.Busy (s : Sink) : Prop := s.state = .writing ∨ s.state = .abortPending

/-- The part of the invariant for each place of the caller. -/
def PlaceOk : Lib.Place (SinkCall α) (Pc α) → SinkSt → Prop
  | .idle, s => s.sink.handle ≠ 0 ↔ s.sink.Busy
  | .gone, s => s.sink.handle = 0 ∧ s.sink.state = .activated
  | .busy o (.writeFlash e h d), s => o.1 = .write e (some d) ∧ h = s.sink.handle ∧
      s.sink.handle ≠ 0 ∧ s.sink.Busy ∧ s.sink.epoch = e
  | .busy o (.writeAccount e n), s => (∃ d, o.1 = .write e (some d) ∧ n = d.length) ∧
      s.sink.handle ≠ 0 ∧ s.sink.Busy ∧ s.sink.epoch = e
  | .busy o (.finishEnd h), s => o.1 = .finish s.sink.epoch ∧ h ≠ 0 ∧ h ≤ s.handles ∧
      s.sink.handle = 0 ∧ s.sink.Busy
  | .busy o (.finishLock _ _), s => o.1 = .finish s.sink.epoch ∧ s.sink.handle = 0 ∧ s.sink.Busy
  | .busy o (.activateBoot t r), s => o.1 = .activate s.sink.epoch r ∧ t = s.sink.target ∧
      s.sink.handle = 0 ∧ s.sink.state = .activated
  | .busy o (.activateUndo _), s => (∃ r, o.1 = .activate s.sink.epoch r) ∧ s.sink.handle = 0 ∧
      s.sink.state = .activated
  | .busy o (.activateClear r), s => o.1 = .activate s.sink.epoch r ∧ s.sink.handle = 0 ∧
      s.sink.state = .activated
  | .busy o (.activateClose r), s => o.1 = .activate s.sink.epoch r ∧ s.sink.handle = 0 ∧
      s.sink.state = .activated

/-- The invariant of the sink (module doc). -/
structure SinkOk (place : Lib.Place (SinkCall α) (Pc α)) (s : SinkSt) : Prop where
  live : s.sink.state = .writing → s.sink.sessionLive = true
  dead : s.sink.state = .idle ∨ s.sink.state = .abortPending → s.sink.sessionLive = false
  target : s.sink.sessionLive = true → s.sink.target.isSome
  handle_le : s.sink.handle ≤ s.handles
  place : PlaceOk place s

theorem SinkOk.init : SinkOk (α := α) .idle .init :=
  ⟨by simp [SinkSt.init, otaSinkInit, Sink.zero], by simp [SinkSt.init, otaSinkInit, Sink.zero],
    by simp [SinkSt.init, otaSinkInit, Sink.zero], Nat.zero_le _,
    by simp [PlaceOk, Sink.Busy, SinkSt.init, otaSinkInit, Sink.zero]⟩

/-! ## An invalidation -/

@[simp] theorem invalidate_handle (s : SinkSt) : (invalidate s).sink.handle = s.sink.handle := rfl

@[simp] theorem invalidate_handles (s : SinkSt) : (invalidate s).handles = s.handles := rfl

@[simp] theorem invalidate_epoch (s : SinkSt) : (invalidate s).sink.epoch = s.sink.epoch := rfl

@[simp] theorem invalidate_target (s : SinkSt) : (invalidate s).sink.target = s.sink.target := rfl

@[simp] theorem invalidate_live (s : SinkSt) : (invalidate s).sink.sessionLive = false := rfl

theorem invalidate_state (s : SinkSt) : (invalidate s).sink.state =
    if s.sink.state = .writing then .abortPending else s.sink.state := rfl

@[simp] theorem invalidate_ne_writing (s : SinkSt) : (invalidate s).sink.state ≠ .writing := by
  rw [invalidate_state]
  split
  · simp
  · assumption

@[simp] theorem invalidate_busy (s : SinkSt) : (invalidate s).sink.Busy ↔ s.sink.Busy := by
  simp only [Sink.Busy, invalidate_state]
  split <;> simp_all

@[simp] theorem invalidate_activated (s : SinkSt) :
    (invalidate s).sink.state = .activated ↔ s.sink.state = .activated := by
  rw [invalidate_state]
  split <;> simp_all

variable {place : Lib.Place (SinkCall α) (Pc α)} {s : SinkSt}

/-- No place of the caller depends on the invalidations. -/
theorem PlaceOk.poke (h : PlaceOk place s) : PlaceOk place (invalidate s) := by
  cases place with
  | idle => simpa [PlaceOk] using h
  | gone => simpa [PlaceOk] using h
  | busy o pc => cases pc <;> simpa [PlaceOk] using h

theorem SinkOk.poke (h : SinkOk place s) : SinkOk place (invalidate s) where
  live hw := absurd hw (invalidate_ne_writing s)
  dead _ := rfl
  target hl := by simp at hl
  handle_le := h.handle_le
  place := h.place.poke

/-! ## The sections -/

variable {B : Board} {o : SinkCall α} {p : Option (Pc α)} {out : Out α}

/-- The place before the section at `p` of the call `o`. -/
def placeAt (o : SinkCall α) (p : Option (Pc α)) : Lib.Place (SinkCall α) (Pc α) :=
  p.elim .idle (.busy o)

theorem next_ret (err : OtaSinkErr) (e : Option Nat) :
    (sinkCode α B).next o (.inr (.ret err e)) = .idle := rfl

/-- The deferred abort leaves the sink without a handle, if no session is live. -/
theorem SinkOk.settle (h : SinkOk (α := α) .idle s) :
    SinkOk (α := α) .idle ⟨(settleAbort s.sink).1, s.handles⟩ ∧
      ((settleAbort s.sink).1.sessionLive = false →
        (settleAbort s.sink).1.handle = 0 ∧
        (settleAbort s.sink).1.state ≠ .writing ∧
        (settleAbort s.sink).1.state ≠ .abortPending) := by
  have hp : s.sink.handle ≠ 0 ↔ s.sink.Busy := h.place
  rcases settleAbort_cases s.sink with ⟨hst, he⟩ | ⟨hst, hh, he⟩ | ⟨hst, hh, he⟩
  · rw [he]
    refine ⟨h, fun hl => ?_⟩
    have hw : s.sink.state ≠ .writing := fun hw => by simp [h.live hw] at hl
    refine ⟨?_, hw, hst⟩
    by_contra hh
    rcases hp.mp hh with hb | hb
    · exact hw hb
    · exact hst hb
  · rw [he]
    refine ⟨⟨?_, ?_, ?_, Nat.zero_le _, ?_⟩, fun _ => ⟨rfl, ?_, ?_⟩⟩ <;>
      simp [settled, sinkToIdleLocked, PlaceOk, Sink.Busy]
  · exact absurd (.inr hst) (fun hb => hp.mpr hb hh)

/-- **Every section keeps the invariant.** -/
theorem Sect.ok (hs : Sect B o p s out) (h : SinkOk (placeAt o p) s) :
    SinkOk ((sinkCode α B).next o out.2.2) out.1 := by
  cases hs with
  | refused => exact h
  | notOpened => exact (SinkOk.settle h).1
  | beginFails _ hl =>
    obtain ⟨hok, hz⟩ := SinkOk.settle h
    obtain ⟨h0, hw, ha⟩ := hz hl
    refine ⟨hok.live, hok.dead, hok.target, Nat.zero_le _, ?_⟩
    rw [next_ret]
    exact ⟨fun hh => absurd rfl hh, fun hb => absurd hb (by simp [Sink.Busy, hw, ha])⟩
  | begins _ hl =>
    refine ⟨fun _ => rfl, fun hst => ?_, fun _ => rfl, Nat.le_refl _, ?_⟩
    · simp [registerSession] at hst
    · exact ⟨fun _ => .inl rfl, fun _ => Nat.succ_ne_zero _⟩
  | writes ho _ hl he hw =>
    have hp : s.sink.handle ≠ 0 ↔ s.sink.Busy := h.place
    exact ⟨h.live, h.dead, h.target, h.handle_le, ho, rfl, hp.mpr (.inl hw), .inl hw, he.symm⟩
  | flashFails =>
    obtain ⟨ho, hh, h0, hb, he⟩ := h.place
    exact ⟨h.live, h.dead, h.target, h.handle_le, fun _ => hb, fun _ => h0⟩
  | flashed =>
    obtain ⟨ho, hh, h0, hb, he⟩ := h.place
    exact ⟨h.live, h.dead, h.target, h.handle_le, ⟨_, ho, rfl⟩, h0, hb, he⟩
  | staleAfter =>
    obtain ⟨ho, h0, hb, he⟩ := h.place
    exact ⟨h.live, h.dead, h.target, h.handle_le, fun _ => hb, fun _ => h0⟩
  | accounts =>
    obtain ⟨ho, h0, hb, he⟩ := h.place
    refine ⟨h.live, h.dead, h.target, h.handle_le, ?_⟩
    rw [next_ret]
    exact ⟨fun _ => hb, fun _ => h0⟩
  | finishes ho hl he hw =>
    have hp : s.sink.handle ≠ 0 ↔ s.sink.Busy := h.place
    exact ⟨h.live, h.dead, h.target, Nat.zero_le _, he ▸ ho, hp.mpr (.inl hw), h.handle_le, rfl,
      .inl hw⟩
  | ended =>
    obtain ⟨ho, hh, hle, h0, hb⟩ := h.place
    exact ⟨h.live, h.dead, h.target, h.handle_le, ho, h0, hb⟩
  | endFailed =>
    obtain ⟨ho, h0, hb⟩ := h.place
    refine ⟨?_, ?_, ?_, h.handle_le, ?_⟩
    · simp [sinkToIdleLocked]
    · simp [sinkToIdleLocked]
    · simp [sinkToIdleLocked]
    · exact ⟨fun hh => absurd h0 hh, by simp [Sink.Busy, sinkToIdleLocked]⟩
  | validated =>
    obtain ⟨ho, h0, hb⟩ := h.place
    refine ⟨?_, ?_, h.target, h.handle_le, ?_⟩
    · simp
    · simp
    · exact ⟨fun hh => absurd h0 hh, by simp [Sink.Busy]⟩
  | activates ho hl he hv =>
    have hp : s.sink.handle ≠ 0 ↔ s.sink.Busy := h.place
    have h0 : s.sink.handle = 0 := by
      by_contra hh
      rcases hp.mp hh with hb | hb <;> rw [hv] at hb <;> cases hb
    exact ⟨by simp, by simp, h.target, h.handle_le, he ▸ ho, rfl, h0, rfl⟩
  | bootFailed =>
    obtain ⟨ho, ht, h0, ha⟩ := h.place
    exact ⟨h.live, h.dead, h.target, h.handle_le, ⟨_, ho⟩, h0, ha⟩
  | booted =>
    obtain ⟨ho, ht, h0, ha⟩ := h.place
    exact ⟨h.live, h.dead, h.target, h.handle_le, ho, h0, ha⟩
  | undone =>
    obtain ⟨ho, h0, ha⟩ := h.place
    refine ⟨?_, ?_, h.target, h.handle_le, ?_⟩
    · simp
    · simp
    · exact ⟨fun hh => absurd h0 hh, by simp [Sink.Busy]⟩
  | cleared =>
    obtain ⟨ho, h0, ha⟩ := h.place
    exact ⟨h.live, h.dead, h.target, h.handle_le, ho, h0, ha⟩
  | @closed reboot _ =>
    obtain ⟨ho, h0, ha⟩ := h.place
    refine ⟨by simp [ha], by simp, by simp, h.handle_le, ?_⟩
    cases reboot
    · exact ⟨fun hh => absurd h0 hh, by simp [Sink.Busy, ha]⟩
    · exact ⟨h0, ha⟩
  | aborts =>
    refine ⟨?_, ?_, ?_, Nat.zero_le _, ?_⟩ <;>
      simp [settled, sinkToIdleLocked, PlaceOk, Lib.Code.next, sinkCode, Sink.Busy]
  | drops _ hl he h0 =>
    have hp : s.sink.handle ≠ 0 ↔ s.sink.Busy := h.place
    have hz : s.sink.handle = 0 := by
      by_contra hh
      rcases hp.mp hh with hb | hb
      · exact hh (h0 hb)
      · simp [h.dead (.inr hb)] at hl
    refine ⟨?_, ?_, ?_, h.handle_le, ?_⟩
    · simp [sinkToIdleLocked]
    · simp [sinkToIdleLocked]
    · simp [sinkToIdleLocked]
    · exact ⟨fun hh => absurd hz hh, by simp [Sink.Busy, sinkToIdleLocked]⟩

/-- The invariant holds in every reachable state. -/
theorem SinkOk.reach {x : SinkSys α} (h : (sinkSystem α B).Reach x) : SinkOk x.place x.st := by
  refine h.invariant (I := fun x => SinkOk x.place x.st) (fun x hx => ?_)
    (fun m x x' _ hok hst => ?_)
  · cases hx; exact SinkOk.init
  · rcases sinkCode_step_cases hst with ⟨o, out, -, hp, hs, rfl⟩ | ⟨o, p, out, -, hp, hs, rfl⟩ |
      ⟨-, rfl⟩
    · rw [hp] at hok
      rw [Lib.Code.after_st, Lib.Code.after_place]
      exact hs.ok hok
    · rw [hp] at hok
      rw [Lib.Code.after_st, Lib.Code.after_place]
      exact hs.ok hok
    · exact hok.poke

/-- The handle of the sink is the latest one that was made. -/
theorem handle_latest {x : SinkSys α} (h : (sinkSystem α B).Reach x) :
    x.st.sink.handle = 0 ∨ x.st.sink.handle = x.st.handles := by
  refine h.invariant (I := fun x => x.st.sink.handle = 0 ∨ x.st.sink.handle = x.st.handles)
    (fun x hx => ?_) (fun m x x' _ hi hst => ?_)
  · cases hx
    exact .inl rfl
  have hset : (settleAbort x.st.sink).1.handle = 0 ∨
      (settleAbort x.st.sink).1.handle = x.st.handles := by
    rcases settleAbort_cases x.st.sink with ⟨-, he⟩ | ⟨-, -, he⟩ | ⟨-, -, he⟩ <;> rw [he]
    · exact hi
    · exact .inl rfl
    · exact hi
  have hsect : ∀ {o : SinkCall α} {p : Option (Pc α)} {out : Out α}, Sect B o p x.st out →
      out.1.sink.handle = 0 ∨ out.1.sink.handle = out.1.handles := by
    intro o p out hs
    cases hs with
    | notOpened => exact hset
    | begins => exact .inr rfl
    | beginFails | finishes | aborts => exact .inl rfl
    | _ => exact hi
  rcases sinkCode_step_cases hst with ⟨o, out, -, -, hs, rfl⟩ | ⟨o, p, out, -, -, hs, rfl⟩ |
    ⟨-, rfl⟩
  · rw [Lib.Code.after_st]
    exact hsect hs
  · rw [Lib.Code.after_st]
    exact hsect hs
  · exact hi

/-! ## The live session -/

/-- The deferred abort is for a dead session. -/
theorem SinkOk.settle_live (h : SinkOk place s) :
    (settleAbort s.sink).1.sessionLive = s.sink.sessionLive := by
  rcases settleAbort_cases s.sink with ⟨-, he⟩ | ⟨hst, -, he⟩ | ⟨hst, -, he⟩ <;> rw [he]
  · rw [h.dead (.inr hst)]; rfl
  · rw [h.dead (.inr hst)]; rfl

/-- **What a section does to the live session**: nothing, it begins one where none is live, or it
ends it: by an abort, after a failed `esp_ota_end`, or at the end of an activate. -/
theorem Sect.live (hs : Sect B o p s out) (h : SinkOk (placeAt o p) s) :
    out.1.sink.sessionLive = s.sink.sessionLive ∨
    (p = none ∧ (∃ cfg, o.1 = .sessionOpen cfg) ∧ out.1.sink.sessionLive = true) ∨
    (p = none ∧ s.sink.sessionLive = true ∧ ∃ e, o.1 = .sessionAbort e) ∨
    (∃ hd ier, p = some (.finishLock hd ier) ∧ ier ≠ espOk) ∨
    ∃ reboot, p = some (.activateClose reboot) ∧ out.2.2 = .inr (if reboot then .restart else
      .ret .ok none) := by
  cases hs with
  | notOpened | beginFails => exact .inl h.settle_live
  | begins ho hl => exact .inr (.inl ⟨rfl, ⟨_, ho⟩, rfl⟩)
  | aborts ho hl | drops ho hl => exact .inr (.inr (.inl ⟨rfl, hl, _, ho⟩))
  | endFailed hi => exact .inr (.inr (.inr (.inl ⟨_, _, rfl, hi⟩)))
  | closed => exact .inr (.inr (.inr (.inr ⟨_, rfl, rfl⟩)))
  | refused | writes | flashFails | flashed | staleAfter | accounts | finishes | ended | validated
    | activates | bootFailed | booted | undone | cleared => exact .inl rfl

/-! ## The handles of the log -/

/-- Every write of the log is on a handle that was made. -/
theorem written_le {x : SinkSys α} (h : (sinkSystem α B).Reach x) {hd : Nat} {data : List α}
    {err : EspErr} : .ev (.otaWrite hd data err) ∈ x.log → hd ≤ x.st.handles := by
  refine h.invariant (I := fun x => .ev (.otaWrite hd data err) ∈ x.log → hd ≤ x.st.handles)
    (fun x hx => ?_) (fun m x x' hr hold hst => ?_)
  · cases hx; simp [sinkInit]
  have hsect : ∀ {o : SinkCall α} {p : Option (Pc α)} {out : Out α} {l : List (SinkEntry α)},
      x.place = placeAt o p → Sect B o p x.st out →
      (.ev (.otaWrite hd data err) ∈ l → hd ≤ x.st.handles) →
      .ev (.otaWrite hd data err) ∈ l ++ out.2.1.map .ev ++ Lib.Code.returned o out.2.2 →
      hd ≤ out.1.handles := by
    rintro o p out l hp hs hl hm
    rcases List.mem_append.mp hm with hm | hm
    · rcases List.mem_append.mp hm with hm | hm
      · exact Nat.le_trans (hl hm) hs.handles_le
      · obtain ⟨ev, hev, he⟩ := List.mem_map.mp hm
        cases he
        obtain ⟨⟨e, rfl⟩, -, -⟩ := hs.otaWrite hev
        have hok := SinkOk.reach hr
        have hpl := hok.place
        rw [hp] at hpl
        exact hpl.2.1 ▸ Nat.le_trans hok.handle_le hs.handles_le
    · unfold Lib.Code.returned at hm
      split at hm <;> simp at hm
  rcases sinkCode_step_cases hst with ⟨o, out, -, hp, hs, rfl⟩ | ⟨o, p, out, -, hp, hs, rfl⟩ |
    ⟨-, rfl⟩
  · rw [Lib.Code.after_st, Lib.Code.after_log]
    exact hsect (p := none) hp hs (by simpa using hold)
  · rw [Lib.Code.after_st, Lib.Code.after_log]
    exact hsect (p := some p) hp hs hold
  · simpa using hold

/-! ## A whole session -/

/-- A call that the IDF answers with `ESP_OK`. -/
def okCall (op : Op α) : Lib.Move (SinkCall α) := .call (op, .allOk)

/-- The moves of a session of four bytes, up to `esp_ota_set_boot_partition`; an invalidation falls
right before that. -/
def wholeSession : List (Lib.Move (SinkCall UInt8)) :=
  [okCall (.sessionOpen (some ⟨4, false⟩)), okCall (.write 1 (some [1, 2, 3, 4])), .run, .run,
    okCall (.finish 1), .run, .run, okCall (.activate 1 true), .poke, .run]

theorem wholeSession_reach :
    (sinkSystem UInt8 .otaSlots).Reach ((sinkSystem UInt8 .otaSlots).run wholeSession sinkInit) :=
  Lib.Lts.run_reach (.init rfl) _

end BleOta
