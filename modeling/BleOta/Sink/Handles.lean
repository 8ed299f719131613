import BleOta.Lib.Linear
import BleOta.Sink.Invariant

/-!
# The OTA handles of the sink

`uses` reads the calls of the IDF as uses of handles (`Lib.Use`): `esp_ota_begin` takes a handle,
`esp_ota_write` uses it, `esp_ota_end` and `esp_ota_abort` give it back. A begin that fails needs,
as one that succeeds, that no handle is out. The abort right after a failing end, which the source
documents, is no use.

* `HandleOk`: the trace of every reachable state is linear, and what is out is the handle of the
  sink or the one that `ota_sink_finish` has taken from it.
* `handles_linear`: what that says about the calls.
-/

namespace BleOta

open Lib (Use)
open Lib.Code (events)

variable {α : Type}

/-- The uses of a call of the IDF, after an end of the handle `failed` that failed right before. -/
def useOf (failed : Option Nat) : Ev α → List (Use Nat)
  | .otaBegin _ _ h err => if err = espOk then [.take h] else [.idle]
  | .otaWrite h _ _ => [.use h]
  | .otaEnd h _ => [.give h]
  | .otaAbort h => if failed = some h then [] else [.give h]
  | _ => []

/-- The handle of a failing `esp_ota_end`. -/
def failedEnd : Ev α → Option Nat
  | .otaEnd h err => if err = espOk then none else some h
  | _ => none

/-- The uses of a trace of events; `failed`: as in `useOf`. -/
def usesFrom (failed : Option Nat) : List (Ev α) → List (Use Nat)
  | [] => []
  | e :: es => useOf failed e ++ usesFrom (failedEnd e) es

/-- The uses of handles of a trace of events. -/
def uses (es : List (Ev α)) : List (Use Nat) := usesFrom none es

/-- The failing end that a trace of events ends with. -/
def lastFailed (failed : Option Nat) : List (Ev α) → Option Nat
  | [] => failed
  | e :: es => lastFailed (failedEnd e) es

theorem usesFrom_append (f : Option Nat) (es es' : List (Ev α)) :
    usesFrom f (es ++ es') = usesFrom f es ++ usesFrom (lastFailed f es) es' := by
  induction es generalizing f with
  | nil => rfl
  | cons e es ih => simp [usesFrom, lastFailed, ih, List.append_assoc]

theorem lastFailed_append (f : Option Nat) (es es' : List (Ev α)) :
    lastFailed f (es ++ es') = lastFailed (lastFailed f es) es' := by
  induction es generalizing f with
  | nil => rfl
  | cons e es ih => exact ih _

/-- The sector loop uses no handle. -/
theorem uses_progress {es : List (Ev α)} (h : ∀ e ∈ es, e.IsProgress) :
    usesFrom none es = [] ∧ lastFailed none es = none := by
  induction es with
  | nil => exact ⟨rfl, rfl⟩
  | cons e es ih =>
    obtain ⟨he, hes⟩ := List.forall_mem_cons.mp h
    have hk : useOf none e = [] ∧ failedEnd e = none := by
      cases e <;> first | exact ⟨rfl, rfl⟩ | exact absurd he (by simp [Ev.IsProgress])
    rw [usesFrom, lastFailed, hk.1, hk.2]
    exact ih hes

/-- The handle that is out: the one of the sink, or the one that `ota_sink_finish` took. -/
def outHandle : Lib.Place (SinkCall α) (Pc α) → SinkSt → Option Nat
  | .busy _ (.finishEnd h), _ => some h
  | _, s => if s.sink.handle = 0 then none else some s.sink.handle

/-- The handle whose end has failed right before. -/
def failedAt : Lib.Place (SinkCall α) (Pc α) → Option Nat
  | .busy _ (.finishLock h ier) => if ier = espOk then none else some h
  | _ => none

/-- The uses of the handles so far: they are linear, and every handle was made by a begin of the
sink, once. -/
structure HandleOk (place : Lib.Place (SinkCall α) (Pc α)) (s : SinkSt) (es : List (Ev α)) :
    Prop where
  linear : Use.Linear none (uses es) (outHandle place s)
  failed : lastFailed none es = failedAt place
  made : ∀ h, Use.take h ∈ uses es → h ≤ s.handles
  once : ∀ h, (uses es).count (.take h) ≤ 1

variable {B : Board} {o : SinkCall α} {p : Option (Pc α)} {out : Out α}
  {place place' : Lib.Place (SinkCall α) (Pc α)} {s s' : SinkSt} {es es' : List (Ev α)}

theorem outHandle_of_ne (h : ∀ o hd, place ≠ .busy o (.finishEnd hd)) (hh : s.sink.handle ≠ 0) :
    outHandle place s = some s.sink.handle := by
  unfold outHandle
  split
  · exact absurd rfl (h _ _)
  · rw [if_neg hh]

theorem outHandle_none (h : ∀ o hd, place ≠ .busy o (.finishEnd hd)) (hh : s.sink.handle = 0) :
    outHandle place s = none := by
  unfold outHandle
  split
  · exact absurd rfl (h _ _)
  · rw [if_pos hh]

/-- After events that take no handle. -/
theorem HandleOk.extend {u : List (Use Nat)} (h : HandleOk place s es)
    (hu : usesFrom (failedAt place) es' = u)
    (hl : Use.Linear (outHandle place s) u (outHandle place' s'))
    (hf : lastFailed (failedAt place) es' = failedAt place')
    (hm : s.handles ≤ s'.handles) (ht : ∀ hd, Use.take hd ∉ u) :
    HandleOk place' s' (es ++ es') := by
  have hus : uses (es ++ es') = uses es ++ u := by
    rw [← hu, ← h.failed]
    exact usesFrom_append _ _ _
  refine ⟨hus ▸ h.linear.append hl, ?_, fun hd hmem => ?_, fun hd => ?_⟩
  · rw [lastFailed_append, h.failed, hf]
  · rw [hus, List.mem_append] at hmem
    rcases hmem with hmem | hmem
    · exact Nat.le_trans (h.made hd hmem) hm
    · exact absurd hmem (ht hd)
  · rw [hus, List.count_append, List.count_eq_zero.mpr (ht hd)]
    exact h.once hd

/-- After events that use no handle, with the same handle out. -/
theorem HandleOk.keep (h : HandleOk place s es) (hu : usesFrom (failedAt place) es' = [])
    (hl : outHandle place' s' = outHandle place s)
    (hf : lastFailed (failedAt place) es' = failedAt place') (hm : s.handles ≤ s'.handles) :
    HandleOk place' s' (es ++ es') :=
  h.extend hu (hl ▸ .nil _) hf hm (by simp)

/-- After `esp_ota_begin` has made a handle. -/
theorem HandleOk.begun {target : Partition} {size : Nat} {e : OtaSinkEvent}
    (h : HandleOk place s es) (hn : outHandle place s = none)
    (hs : s'.handles = s.handles + 1) (hh : s'.sink.handle = s.handles + 1) :
    HandleOk (α := α) .idle s'
      (es ++ [.otaBegin target size (s.handles + 1) espOk, .fire e]) := by
  have hus : uses (es ++ [.otaBegin target size (s.handles + 1) espOk, .fire e]) =
      uses es ++ [.take (s.handles + 1)] := usesFrom_append _ _ _
  have hnew : Use.take (s.handles + 1) ∉ uses es := fun hmem => by
    have := h.made _ hmem
    omega
  have hout : outHandle (α := α) .idle s' = some (s.handles + 1) := by
    rw [outHandle_of_ne (by simp) (by omega), hh]
  refine ⟨?_, ?_, fun hd hmem => ?_, fun hd => ?_⟩
  · rw [hus, hout]
    exact (hn ▸ h.linear).snoc (.take _)
  · rw [lastFailed_append]
    rfl
  · rw [hus, List.mem_append, List.mem_singleton] at hmem
    rcases hmem with hmem | hmem
    · have := h.made hd hmem
      omega
    · cases hmem
      omega
  · rw [hus, List.count_append]
    by_cases hd' : hd = s.handles + 1
    · subst hd'
      rw [List.count_eq_zero.mpr hnew]
      simp
    · have := h.once hd
      simpa [Ne.symm hd'] using this

theorem linear_give {h : Nat} : Use.Linear (some h) [.give h] none := .snoc (.nil _) (.give h)

theorem linear_use {h : Nat} : Use.Linear (some h) [.use h] (some h) := .snoc (.nil _) (.use h)

/-- The deferred abort gives back the handle that an invalidation left. -/
theorem HandleOk.settle (h : HandleOk .idle s es) :
    HandleOk .idle ⟨(settleAbort s.sink).1, s.handles⟩
      (es ++ settleEvents s.sink) := by
  rcases settleAbort_cases s.sink with ⟨hst, he⟩ | ⟨hst, hh, he⟩ | ⟨hst, hh, he⟩
  · rw [he, settleEvents_eq he]
    exact h.keep rfl rfl rfl (Nat.le_refl _)
  · rw [he, settleEvents_eq he]
    refine h.extend (u := [.give s.sink.handle]) rfl ?_ rfl (Nat.le_refl _) (by simp)
    rw [outHandle_of_ne (by simp) hh]
    exact linear_give
  · rw [he, settleEvents_eq he]
    exact h.keep rfl rfl rfl (Nat.le_refl _)

/-- **Every section keeps the uses linear.** -/
theorem Sect.handles (hs : Sect B o p s out) (hok : SinkOk (placeAt o p) s)
    (h : HandleOk (placeAt o p) s es) :
    HandleOk ((sinkCode α B).next o out.2.2) out.1 (es ++ out.2.1) := by
  cases hs with
  | refused => exact h.keep rfl rfl rfl (Nat.le_refl _)
  | notOpened => exact HandleOk.settle h
  | beginFails _ hl =>
    have h0 := ((SinkOk.settle hok).2 hl).1
    have hn : outHandle (α := α) .idle ⟨(settleAbort s.sink).1, s.handles⟩ = none :=
      outHandle_none (by simp) h0
    rw [← List.append_assoc]
    refine (HandleOk.settle h).extend (u := [.idle]) ?_ ?_ rfl (Nat.le_refl _) (by simp)
    · next hb => simp [usesFrom, useOf, sinkFireError, hb]
    · rw [hn]
      exact .snoc (.nil _) .idle
  | begins _ hl =>
    have h0 := ((SinkOk.settle hok).2 hl).1
    rw [← List.append_assoc]
    exact (HandleOk.settle h).begun (outHandle_none (by simp) h0) rfl rfl
  | writes => exact h.keep rfl rfl rfl (Nat.le_refl _)
  | flashFails =>
    obtain ⟨-, hh, h0, -, -⟩ := hok.place
    subst hh
    refine h.extend (u := [.use s.sink.handle]) rfl ?_ rfl (Nat.le_refl _) (by simp)
    rw [next_ret, outHandle_of_ne (by simp [placeAt]) h0, outHandle_of_ne (by simp) h0]
    exact linear_use
  | flashed =>
    obtain ⟨-, hh, h0, -, -⟩ := hok.place
    subst hh
    refine h.extend (u := [.use s.sink.handle]) rfl ?_ rfl (Nat.le_refl _) (by simp)
    rw [outHandle_of_ne (by simp [placeAt]) h0, outHandle_of_ne (by simp [Lib.Code.next]) h0]
    exact linear_use
  | staleAfter => exact h.keep rfl rfl rfl (Nat.le_refl _)
  | accounts _ _ _ hes =>
    exact h.keep (uses_progress hes).1 rfl (uses_progress hes).2 (Nat.le_refl _)
  | finishes ho hl he hw =>
    have h0 : s.sink.handle ≠ 0 := hok.place.mpr (.inl hw)
    exact h.keep rfl (outHandle_of_ne (by simp [placeAt]) h0).symm rfl (Nat.le_refl _)
  | @ended hd _ =>
    obtain ⟨-, -, -, h0, -⟩ := hok.place
    refine h.extend (u := [.give hd]) rfl ?_ rfl (Nat.le_refl _) (by simp)
    have hn : outHandle ((sinkCode α B).next o (.inl (.finishLock hd o.2.end))) s = none :=
      outHandle_none (by simp [Lib.Code.next]) h0
    rw [hn]
    exact linear_give
  | endFailed hi =>
    refine h.keep ?_ rfl rfl (Nat.le_refl _)
    simp [usesFrom, useOf, failedAt, placeAt, hi, sinkFireError]
  | validated => exact h.keep rfl rfl rfl (Nat.le_refl _)
  | activates => exact h.keep rfl rfl rfl (Nat.le_refl _)
  | bootFailed => exact h.keep rfl rfl rfl (Nat.le_refl _)
  | booted => exact h.keep rfl rfl rfl (Nat.le_refl _)
  | undone => exact h.keep rfl rfl rfl (Nat.le_refl _)
  | cleared => exact h.keep rfl rfl rfl (Nat.le_refl _)
  | @closed reboot _ =>
    cases reboot
    · exact h.keep rfl rfl rfl (Nat.le_refl _)
    · exact h.keep rfl rfl rfl (Nat.le_refl _)
  | aborts _ _ _ _ h0 =>
    refine h.extend (u := [.give s.sink.handle]) rfl ?_ rfl (Nat.le_refl _) (by simp)
    rw [next_ret, outHandle_of_ne (by simp [placeAt]) h0]
    exact linear_give
  | drops => exact h.keep rfl rfl rfl (Nat.le_refl _)

/-- An invalidation uses no handle. -/
theorem HandleOk.poke (h : HandleOk place s es) : HandleOk place (invalidate s) es := by
  have hout : outHandle place (invalidate s) = outHandle place s := by
    cases place with
    | idle => rfl
    | gone => rfl
    | busy o p => cases p <;> rfl
  exact ⟨hout ▸ h.linear, h.failed, h.made, h.once⟩

theorem HandleOk.reach {x : SinkSys α} (h : (sinkSystem α B).Reach x) :
    HandleOk x.place x.st (events x.log) := by
  refine h.invariant (I := fun x => HandleOk x.place x.st (events x.log)) (fun x hx => ?_)
    (fun m x x' hr hok hst => ?_)
  · cases hx
    exact ⟨.nil _, rfl, (fun hd hm => by cases hm), fun hd => Nat.zero_le _⟩
  · have hs := SinkOk.reach hr
    rcases sinkCode_step_cases hst with ⟨o, out, -, hp, hsect, rfl⟩ |
      ⟨o, p, out, -, hp, hsect, rfl⟩ | ⟨-, rfl⟩
    · rw [hp] at hok hs
      rw [Lib.Code.after_st, Lib.Code.after_place, Lib.Code.after_log]
      simpa using hsect.handles hs hok
    · rw [hp] at hok hs
      rw [Lib.Code.after_st, Lib.Code.after_place, Lib.Code.after_log]
      simpa using hsect.handles hs hok
    · simpa using hok.poke

/-! ## What it says about the calls -/

theorem uses_split {e : Ev α} {pre post : List (Ev α)} (he : es = pre ++ e :: post) :
    uses es = uses pre ++ (useOf (lastFailed none pre) e ++ usesFrom (failedEnd e) post) := by
  subst he
  exact usesFrom_append _ _ _

/-- **OTA handles are used linearly**, in every reachable state: what is out is the handle of the
sink, or the one that `ota_sink_finish` has taken, so at most one; `esp_ota_begin`, also one that
fails, is called when none is out; a handle is begun at most once, and given back once if it is not
out; `esp_ota_write` is called on the handle that is out, which was not given back before. -/
theorem handles_linear {x : SinkSys α} (h : (sinkSystem α B).Reach x) :
    Use.out (uses (events x.log)) = (outHandle x.place x.st).toList ∧
    (Use.out (uses (events x.log))).length ≤ 1 ∧
    (∀ pre post target size hd err, events x.log = pre ++ .otaBegin target size hd err :: post →
      Use.out (uses pre) = []) ∧
    (∀ hd, (uses (events x.log)).count (.take hd) ≤ 1 ∧
      (uses (events x.log)).count (.take hd) = (uses (events x.log)).count (.give hd) +
        if hd ∈ Use.out (uses (events x.log)) then 1 else 0) ∧
    (∀ pre post hd data err, events x.log = pre ++ .otaWrite hd data err :: post →
      hd ∈ Use.out (uses pre) ∧ .give hd ∉ uses pre) := by
  have hok := HandleOk.reach h
  refine ⟨hok.linear.out_eq, hok.linear.out_length, fun pre post target size hd err he => ?_,
    fun hd => ⟨hok.once hd, hok.linear.balance hd⟩, fun pre post hd data err he => ?_⟩
  · have hl := hok.linear
    rw [uses_split he] at hl
    have hu : useOf (lastFailed none pre) (Ev.otaBegin (α := α) target size hd err) = [.take hd] ∨
        useOf (lastFailed none pre) (Ev.otaBegin (α := α) target size hd err) = [.idle] := by
      simp only [useOf]
      split
      · exact .inl rfl
      · exact .inr rfl
    rcases hu with hu | hu <;> rw [hu] at hl <;> obtain ⟨m, m', h1, h2, -⟩ := hl.at <;> cases h2 <;>
      exact h1.out_eq
  · have hl := hok.linear
    have honce := hok.once hd
    rw [uses_split he] at hl honce
    obtain ⟨m, m', h1, h2, -⟩ := hl.at
    cases h2
    have hout : Use.out (uses pre) = [hd] := h1.out_eq
    have hbal := h1.balance hd
    rw [hout] at hbal ⊢
    refine ⟨List.mem_singleton_self hd, fun hg => ?_⟩
    have hpos : 0 < (uses pre).count (.give hd) := List.count_pos_iff.mpr hg
    rw [List.count_append] at honce
    simp at hbal
    omega

/-- In a whole session one handle is made, and it is given back. -/
theorem handles_linear_wholeSession :
    let es := events ((sinkSystem UInt8 .otaSlots).run wholeSession sinkInit).log
    uses es = [.take 1, .use 1, .give 1] ∧ (Use.out (uses es)).length ≤ 1 ∧
      (uses es).count (.take 1) ≤ 1 := by
  obtain ⟨-, h1, -, h3, -⟩ := handles_linear wholeSession_reach
  exact ⟨rfl, h1, (h3 1).1⟩

end BleOta
