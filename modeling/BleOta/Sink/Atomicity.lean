import BleOta.Sink.Invariant

/-!
# The operations of the sink are atomic for invalidations

Every call of the sink is atomic (`Lib.Code.Atomic`): with any number of invalidations between its
sections it does what it does with all of them right before it (a write that finds itself
invalidated after `esp_ota_write`) or right after it (every other call). So every run has a
sequential order with the same results and the same state (`operations_atomic`). Only a write that
returns stale can differ in its events: it has written to the handle that is abandoned, and in the
sequential order it writes nothing.
-/

namespace BleOta

open Lib (Move Lin)
open Lib.Code (Whole Rest Atomic pokes)

variable {α : Type} {B : Board}

/-- The events of a call in a run and in its sequential order: the same, but for a write that
returned stale after it wrote. -/
def SameEvents (o : SinkCall α) (r : Ret) (es es' : List (Ev α)) : Prop :=
  es = es' ∨ ∃ e data h, o.1 = .write e (some data) ∧ r = .ret .sessionStale none ∧
    es = [.otaWrite h data espOk] ∧ es' = []

variable {o : SinkCall α} {s s' : SinkSt} {ms : List (Move (SinkCall α))} {es : List (Ev α)}
  {r : Ret}

/-- A second invalidation changes nothing. -/
theorem invalidate_twice (s : SinkSt) : invalidate (invalidate s) = invalidate s := by
  simp only [invalidate, otaSinkEpochInvalidate]
  split <;> simp_all

theorem invalidate_iterate (k : Nat) (s : SinkSt) : invalidate^[k + 1] s = invalidate s := by
  induction k generalizing s with
  | zero => rfl
  | succ k ih => rw [Function.iterate_succ_apply, ih, invalidate_twice]

/-- The places of `ota_sink_finish` and `ota_sink_activate`. -/
def Pc.Closing : Pc α → Prop
  | .writeFlash .. => False
  | .writeAccount .. => False
  | _ => True

/-- The later sections of `ota_sink_finish` and `ota_sink_activate` do the same before and after
an invalidation. -/
theorem closing_commutes (o : SinkCall α) : (sinkCode α B).Commutes o Pc.Closing := by
  intro p s hp
  cases p with
  | writeFlash | writeAccount => exact absurd hp id
  | finishEnd | activateClear => exact ⟨rfl, fun p' h => by cases h; trivial⟩
  | activateBoot t reboot =>
    refine ⟨rfl, fun p' h => ?_⟩
    injection h with h
    subst h
    split <;> trivial
  | finishLock h ier =>
    refine ⟨?_, fun p' h => ?_⟩
    · by_cases hi : ier = espOk <;>
        simp [sinkCode, otaSinkResume, otaSinkFinishLock, hi, invalidate, otaSinkEpochInvalidate,
          sinkToIdleLocked]
    · by_cases hi : ier = espOk <;> simp [sinkCode, otaSinkResume, otaSinkFinishLock, hi] at h
  | activateUndo ier =>
    refine ⟨?_, fun p' h => by cases h⟩
    simp [sinkCode, otaSinkResume, otaSinkActivateUndo, invalidate, otaSinkEpochInvalidate]
  | activateClose reboot =>
    refine ⟨?_, fun p' h => by cases h⟩
    simp [sinkCode, otaSinkResume, otaSinkActivateClose, invalidate, otaSinkEpochInvalidate]

/-- A call that is no write is atomic. -/
theorem closing_atomic (h : ∀ e data, o.1 ≠ .write e data) :
    (sinkCode α B).Atomic SameEvents o := by
  refine (closing_commutes o).atomic (fun s p hp => ?_) (fun _ _ => .inl rfl)
  have hs := enter_sect (B := B) o s
  generalize hout : otaSinkEnter B o.1 o.2 s = out at hs
  replace hp : out.2.2 = .inl p := by rw [← hout]; exact hp
  cases hs with
  | writes ho => exact absurd ho (h _ _)
  | finishes | activates => cases hp; trivial
  | refused | notOpened | beginFails | begins | aborts | drops => cases hp

/-- A write to a sink that was invalidated returns stale. -/
theorem account_invalidated (e len : Nat) (idf : Idf) (s : SinkSt) :
    otaSinkWriteAccount (α := α) e len idf (invalidate s) =
      (invalidate s, [], .inr (.ret .sessionStale none)) := by
  simp [otaSinkWriteAccount, sinkEpochIsCurrentLocked]

theorem write_invalidated (e : Nat) {data : List α} (hd : data ≠ []) (s : SinkSt) :
    otaSinkWrite e (some data) (invalidate s) =
      (invalidate s, [], .inr (.ret .sessionStale none)) := by
  simp [otaSinkWrite, hd, sinkEpochIsCurrentLocked]

/-- What `ota_sink_write` does from `esp_ota_write` on, with the invalidations before its last
section. -/
theorem write_rest {e h : Nat} {data : List α}
    (hr : (sinkCode α B).Rest o (.writeFlash e h data) s ms es s' r) :
    (o.2.write ≠ espOk ∧ s' = invalidate^[pokes ms] s ∧
      es = [.otaWrite h data o.2.write, sinkFireError .writeFail o.2.write] ∧
      r = .ret .writeFail none) ∨
    (o.2.write = espOk ∧ ∃ es', es = [.otaWrite h data espOk] ++ es' ∧
      otaSinkWriteAccount e data.length o.2 (invalidate^[pokes ms] s) = (s', es', .inr r)) := by
  obtain ⟨k, ⟨h1, h2⟩ | ⟨s₁, es₁, p, ms₂, es₂, h1, h2, h3, h4⟩⟩ := hr.section
  all_goals
    simp only [sinkCode, otaSinkResume] at h1
    split at h1
  · next hw =>
    cases h1
    exact .inl ⟨hw, by rw [h2], rfl, rfl⟩
  · cases h1
  · cases h1
  · next hw =>
    cases h1
    refine .inr ⟨not_not.mp hw, es₂, h3, ?_⟩
    obtain ⟨k', ⟨h5, h6⟩ | ⟨_, _, _, _, _, h5, -⟩⟩ := h2.section
    · rw [h4, h6, Nat.add_comm, Function.iterate_add_apply]
      exact h5
    · simp only [sinkCode, otaSinkResume, otaSinkWriteAccount] at h5
      split at h5 <;> cases h5

/-- A write is atomic: the invalidations stand before it if it got to its last section, and after
it if `esp_ota_write` failed. -/
theorem write_atomic (h : ∃ e data, o.1 = .write e data) : (sinkCode α B).Atomic SameEvents o := by
  intro s ms es s' r hwhole
  obtain ⟨op, idf⟩ := o
  obtain ⟨e, data, rfl⟩ : ∃ e data, op = .write e data := h
  cases hwhole with
  | ends hent => exact ⟨[], es, by simp, .inl rfl, .inl (.ends hent)⟩
  | @goes s₁ _ p _ es₁ es₂ _ hent hrest =>
    have hs := write_sect (B := B) e data idf s
    generalize hout : otaSinkWrite e data s = out at hs
    have hent' : out = (s₁, es₁, .inl p) := hout.symm.trans hent
    cases hs with
    | refused | notOpened | beginFails | begins | aborts | drops => cases hent'
    | finishes ho | activates ho => cases ho
    | @writes e' d _ ho hd hl he hst =>
      cases hent'
      cases ho
      have hflash : ∀ t, idf.write = espOk →
          (sinkCode α B).resume (.write e (some d), idf) (.writeFlash e s.sink.handle d) t =
            (t, [.otaWrite s.sink.handle d espOk], .inl (.writeAccount e d.length)) := by
        intro t hw
        simp [sinkCode, otaSinkResume, hw]
      rcases write_rest hrest with ⟨hw, hs', rfl, rfl⟩ | ⟨hw, es', rfl, hacc⟩
      · refine ⟨[.run], _, by simp, .inl rfl, .inr ⟨s, .goes hent (.ends ?_), hs'.symm⟩⟩
        simp only [sinkCode, otaSinkResume]
        rw [if_pos hw]
      · cases hk : pokes ms with
        | zero =>
          rw [hk] at hacc
          exact ⟨[.run, .run], _, by simp, .inl rfl,
            .inl (.goes hent (.goes (hflash s hw) (.ends hacc)))⟩
        | succ k =>
          rw [hk, invalidate_iterate, account_invalidated] at hacc
          cases hacc
          refine ⟨[], [], by simp, .inr ⟨e, d, s.sink.handle, rfl, rfl, rfl, rfl⟩, .inl (.ends ?_)⟩
          have hinv : (sinkCode α B).poke^[k + 1] s = invalidate s := invalidate_iterate k s
          rw [hinv]
          exact write_invalidated e hd s

/-- Every call of the sink is atomic. -/
theorem sink_atomic (o : SinkCall α) : (sinkCode α B).Atomic SameEvents o := by
  by_cases h : ∃ e data, o.1 = .write e data
  · exact write_atomic h
  · exact closing_atomic fun e data he => h ⟨e, data, he⟩

/-- **The operations of the sink are atomic with respect to invalidation.** From every state
outside a call, every run that ends outside a call has a sequential order: the same calls in the
same order, each in one piece, with every invalidation that fell into one right before or right
after it. It has the same state of the sink at its end, the same result for every call, and the
same events but for the stale writes. -/
theorem operations_atomic {x y : SinkSys α} {ls : List (Move (SinkCall α))}
    (hx : ∀ o p, x.place ≠ .busy o p)
    (hrun : (sinkSystem α B).exec ls x = some y) (hy : ∀ o p, y.place ≠ .busy o p) :
    ∃ ls' y', Lin ls ls' ∧ (sinkSystem α B).exec ls' x = some y' ∧ y'.st = y.st ∧
      y'.place = y.place ∧
      Lib.Code.Agree SameEvents (Lib.Code.done y.log) (Lib.Code.done y'.log) :=
  Lib.Code.linearize sink_atomic _ (Nat.le_refl _) hrun hx hy rfl rfl
    (Lib.Code.Agree.refl (fun _ _ _ => Or.inl rfl) _)

/-- A write that is invalidated between `esp_ota_write` and its last section. -/
theorem operations_atomic_write :
    let ls := [okCall (.sessionOpen (some ⟨4, false⟩)), okCall (.write 1 (some [7])), .run, .poke,
      .run]
    let y := (sinkSystem UInt8 .otaSlots).run ls sinkInit
    ∃ ls' y', Lin ls ls' ∧ (sinkSystem UInt8 .otaSlots).exec ls' sinkInit = some y' ∧ y'.st = y.st ∧
      y'.place = y.place ∧
      Lib.Code.Agree SameEvents (Lib.Code.done y.log) (Lib.Code.done y'.log) :=
  operations_atomic (by simp [sinkInit]) rfl (by rintro o p ⟨⟩)

end BleOta
