import BleOta.Sink.Spec
import Mathlib.Algebra.GroupWithZero.Nat
import Mathlib.Data.List.Induction

/-!
# The sink refines its executable specification

`Mirrors s sp`: the sink and the specification agree on the session; the specification has no
handle, and it stays `VALIDATED` where the sink is `ACTIVATED` and the session is over.
`CallMirrors`: a call gives the same answer on both sides, the same saves, clears and events, and
keeps `Mirrors`.

* `openSession_mirrors`, `write_mirrors`, `abort_mirrors`, `finish_mirrors`, `activate_mirrors`,
  `invalidate_mirrors`: one lemma for each call.
* `refines_spec`: a whole sequence of calls.
-/

namespace BleOta

open Lib.Code (events)

variable {α : Type}

/-! ## What the two sides have in common -/

/-- The saves among the calls of the sink. -/
def saves (es : List (Ev α)) : List (Nat × Nat × Nat) :=
  es.filterMap fun
    | .progressSave size offset sector _ => some (size, offset, sector)
    | _ => none

/-- The number of clears. -/
def clears (es : List (Ev α)) : Nat := es.countP (· matches .progressClear _)

/-- The events for the user of the sink. -/
def fired (es : List (Ev α)) : List OtaSinkEvent :=
  es.filterMap fun
    | .fire e => some e
    | _ => none

/-- The returns of a log. -/
def returns (log : List (SinkEntry α)) : List (Op α × Ret) :=
  log.filterMap fun
    | .ret o r => some (o.1, r)
    | _ => none

theorem saves_append (es es' : List (Ev α)) : saves (es ++ es') = saves es ++ saves es' :=
  List.filterMap_append

theorem clears_append (es es' : List (Ev α)) : clears (es ++ es') = clears es + clears es' :=
  List.countP_append

theorem fired_append (es es' : List (Ev α)) : fired (es ++ es') = fired es ++ fired es' :=
  List.filterMap_append

/-- The log after a call that returned. -/
theorem returns_call (log : List (SinkEntry α)) (o : SinkCall α) (es : List (Ev α)) (r : Ret) :
    returns (log ++ [.call o] ++ es.map .ev ++ [.ret o r]) = returns log ++ [(o.1, r)] := by
  have hes : returns (es.map .ev : List (SinkEntry α)) = [] := by
    induction es with
    | nil => rfl
    | cons e es ih => exact ih
  unfold returns at hes ⊢
  rw [List.filterMap_append, List.filterMap_append, List.filterMap_append, hes]
  simp

/-- The code of the sink for a code of the test. -/
def SpecRet.code : SpecRet → OtaSinkErr
  | .ok => .ok
  | .badArg => .badArg
  | .busy => .busy
  | .noSession => .noSession
  | .stale => .sessionStale
  | .sizeInvalid => .sizeInvalid
  | .validateFail => .validateFail

/-- A call returns what the specification returns; an activate with `reboot_now` restarts where the
specification returns `OK`. -/
def Answers : Op α × Ret → SpecRet × Option Nat → Prop
  | (_, .ret err epoch), (r, epoch') => err = r.code ∧ epoch = epoch'
  | (.activate _ true, .restart), (r, epoch') => r = .ok ∧ epoch' = none
  | (_, .restart), _ => False

/-- An event of the sink shows the event of the specification. `VALIDATED` and `ACTIVATED` have no
data in the sink. -/
def Shows : OtaSinkEvent → SpecEvent → Prop
  | .sessionStart p, .sessionStart epoch => p.epoch = epoch
  | .progress p, .progress sectorsDone => p.sectorsDone = sectorsDone
  | .error code _, .error r => code = r.code
  | .validated, .validated _ => True
  | .activated, .activated _ => True
  | _, _ => False

/-- The states of the two sides, and whether the session is live. -/
inductive SameState : SinkState → SpecState → Bool → Prop
  | idle : SameState .idle .idle false
  | writing : SameState .writing .writing true
  | abortPending : SameState .abortPending .abortPending false
  | validated {live} : SameState .validated .validated live
  | activated : SameState .activated .validated false

theorem SameState.abortPending_iff {st : SinkState} {sst : SpecState} {live : Bool}
    (h : SameState st sst live) : st = .abortPending ↔ sst = .abortPending := by
  cases h <;> simp

theorem SameState.writing_iff {st : SinkState} {sst : SpecState} {live : Bool}
    (h : SameState st sst live) : st = .writing ↔ sst = .writing := by
  cases h <;> simp

theorem SameState.validated_iff {st : SinkState} {sst : SpecState} {live : Bool}
    (h : SameState st sst live) (hl : live = true) : st = .validated ↔ sst = .validated := by
  cases h <;> simp_all

/-- A session that is not written may be dropped. -/
theorem SameState.dead {st : SinkState} {sst : SpecState} {live : Bool}
    (h : SameState st sst live) (hw : st ≠ .writing) : SameState st sst false := by
  cases h with
  | idle => exact .idle
  | writing => exact absurd rfl hw
  | abortPending => exact .abortPending
  | validated => exact .validated
  | activated => exact .activated

/-- The sink and the specification between two calls (module doc). -/
structure Mirrors (s : Sink) (sp : SinkSpec) : Prop where
  epoch : s.epoch = sp.epoch
  nextEpoch : s.nextEpoch = sp.nextEpoch
  live : s.sessionLive = sp.sessionLive
  state : SameState s.state sp.state sp.sessionLive
  imageSize : s.imageSize = sp.imageSize
  bytes : s.bytesWritten = sp.bytesWritten
  sectors : s.sectorsDone = sp.sectorsDone
  bytes_lt : sp.bytesWritten < 2 ^ 32
  done_le : sp.sectorsDone * specSectorSize ≤ sp.bytesWritten

/-- The calls `es` of the sink, against what the specification records. -/
structure Records (es : List (Ev α)) (sp sp' : SinkSpec) : Prop where
  saves : sp'.nvsSaves = sp.nvsSaves ++ saves es
  clears : sp'.nvsCleared = sp.nvsCleared + clears es
  events : ∃ new, sp'.events = sp.events ++ new ∧ List.Forall₂ Shows (fired es) new

/-- A call on both sides. -/
structure CallMirrors (op : Op α) (out : SinkSt × List (Ev α) × Ret) (sp : SinkSpec)
    (res : SinkSpec × SpecRet × Option Nat) : Prop where
  mirrors : Mirrors out.1.sink res.1
  records : Records out.2.1 sp res.1
  answers : Answers (op, out.2.2) res.2

theorem Mirrors.init : Mirrors SinkSt.init.sink .start :=
  ⟨rfl, rfl, rfl, .idle, rfl, rfl, rfl, by decide, by decide⟩

theorem Records.nil (sp : SinkSpec) : Records ([] : List (Ev α)) sp sp :=
  ⟨(List.append_nil _).symm, rfl, [], (List.append_nil _).symm, .nil⟩

/-- An answer to a call that changes nothing. -/
theorem CallMirrors.refused {op : Op α} {s : SinkSt} {sp : SinkSpec} (h : Mirrors s.sink sp)
    {err : OtaSinkErr} {r : SpecRet} (he : err = r.code) :
    CallMirrors op (s, [], .ret err none) sp (sp, r, none) :=
  ⟨h, .nil sp, ⟨he, rfl⟩⟩

/-! ## Open -/

variable {B : Board} {s : SinkSt} {sp : SinkSpec} {idf : Idf}

/-- The sink and the specification are idle. -/
theorem Mirrors.toIdle {k k' : Sink} (h : Mirrors k sp) (h1 : k'.epoch = k.epoch)
    (h2 : k'.nextEpoch = k.nextEpoch) (h3 : k'.sessionLive = false) (h4 : k'.state = .idle)
    (h5 : k'.imageSize = k.imageSize) (h6 : k'.bytesWritten = k.bytesWritten)
    (h7 : k'.sectorsDone = k.sectorsDone) : Mirrors k' sp.toIdle :=
  ⟨h1.trans h.epoch, h2.trans h.nextEpoch, h3, h4 ▸ .idle, h5.trans h.imageSize,
    h6.trans h.bytes, h7.trans h.sectors, h.bytes_lt, h.done_le⟩

/-- The deferred abort on both sides. -/
theorem Mirrors.settle (h : Mirrors s.sink sp) : Mirrors (settleAbort s.sink).1 sp.settle := by
  have hst := h.state
  by_cases ha : s.sink.state = .abortPending
  · have hsp : sp.state = .abortPending := hst.abortPending_iff.mp ha
    have he : sp.settle = sp.toIdle := if_pos hsp
    rw [he]
    rcases settleAbort_cases s.sink with ⟨hne, -⟩ | ⟨-, -, hc⟩ | ⟨-, -, hc⟩
    · exact absurd ha hne
    · rw [hc]
      exact h.toIdle rfl rfl rfl rfl rfl rfl rfl
    · rw [hc]
      exact h.toIdle rfl rfl rfl rfl rfl rfl rfl
  · have hsp : sp.state ≠ .abortPending := fun hsp => ha (hst.abortPending_iff.mpr hsp)
    have he : sp.settle = sp := if_neg hsp
    rcases settleAbort_cases s.sink with ⟨-, hc⟩ | ⟨hp, -⟩ | ⟨hp, -⟩
    · rw [hc, he]
      exact h
    · exact absurd hp ha
    · exact absurd hp ha

/-- The deferred abort records nothing. -/
theorem settle_records (k : Sink) (es : List (Ev α)) :
    saves (settleEvents k ++ es) = saves es ∧ clears (settleEvents k ++ es) = clears es ∧
      fired (settleEvents k ++ es) = fired es := by
  unfold settleEvents
  cases (settleAbort k).2 <;> exact ⟨rfl, by simp [clears], rfl⟩

@[simp] theorem SinkSpec.settle_records (sp : SinkSpec) : sp.settle.nvsSaves = sp.nvsSaves ∧
    sp.settle.nvsCleared = sp.nvsCleared ∧ sp.settle.events = sp.events := by
  unfold SinkSpec.settle
  split <;> exact ⟨rfl, rfl, rfl⟩

/-- Both sides come to the same answer of an open that begins nothing. -/
theorem CallMirrors.notOpened {op : Op α} (h : Mirrors s.sink sp) {err : OtaSinkErr} {r : SpecRet}
    (he : err = r.code) :
    CallMirrors op (⟨(settleAbort s.sink).1, s.handles⟩, settleEvents s.sink, .ret err none) sp
      (sp.settle, r, none) := by
  obtain ⟨h1, h2, h3⟩ := settle_records (α := α) s.sink []
  obtain ⟨k1, k2, k3⟩ := sp.settle_records
  rw [List.append_nil] at h1 h2 h3
  refine ⟨h.settle, ⟨?_, ?_, [], ?_, ?_⟩, ⟨he, rfl⟩⟩
  · rw [h1, k1]
    exact (List.append_nil _).symm
  · rw [h2, k2]
    rfl
  · rw [k3, List.append_nil]
  · rw [h3]
    exact .nil

theorem openSession_mirrors (h : Mirrors s.sink sp) {target : Partition}
    (ht : B.running.bind B.nextUpdate = some target) (hsz : target.size = partitionSize)
    (hb : idf.begin = espOk) (hn : sp.nextEpoch + 1 < 2 ^ 32) (cfg : OtaSinkSessionCfg) (n : Nat) :
    ∃ out, (sinkCode α B).whole n (.sessionOpen (some cfg), idf) s = some out ∧
      CallMirrors (.sessionOpen (some cfg)) out sp (sp.open cfg.imageSize) := by
  obtain ⟨running, hr, hnx⟩ := Option.bind_eq_some_iff.mp ht
  have hlive : (settleAbort s.sink).1.sessionLive = sp.settle.sessionLive := h.settle.live
  unfold SinkSpec.open
  by_cases h0 : cfg.imageSize = 0
  · have he : (sinkCode α B).enter (.sessionOpen (some cfg), idf) s =
        (s, [], .inr (.ret .badArg none)) := by
      simp [sinkCode, otaSinkEnter, otaSinkSessionOpen, h0]
    rw [if_pos h0]
    exact ⟨_, Lib.Code.whole_inr he n, .refused h rfl⟩
  rw [if_neg h0]
  dsimp only
  by_cases hl : sp.settle.sessionLive = true
  · have he : (sinkCode α B).enter (.sessionOpen (some cfg), idf) s =
        (⟨(settleAbort s.sink).1, s.handles⟩, settleEvents s.sink, .inr (.ret .busy none)) := by
      simp [sinkCode, otaSinkEnter, otaSinkSessionOpen, h0, hlive, hl]
    rw [if_pos hl]
    exact ⟨_, Lib.Code.whole_inr he n, .notOpened h rfl⟩
  rw [if_neg hl]
  by_cases hf : partitionSize < cfg.imageSize
  · have he : (sinkCode α B).enter (.sessionOpen (some cfg), idf) s =
        (⟨(settleAbort s.sink).1, s.handles⟩, settleEvents s.sink,
          .inr (.ret .sizeInvalid none)) := by
      simp [sinkCode, otaSinkEnter, otaSinkSessionOpen, h0, hlive, hl, hr, hnx, hsz, hf]
    rw [if_pos hf]
    exact ⟨_, Lib.Code.whole_inr he n, .notOpened h rfl⟩
  rw [if_neg hf]
  have hl' : (settleAbort s.sink).1.sessionLive = false := by simpa [hlive] using hl
  refine ⟨_, Lib.Code.whole_inr (enter_open cfg h0 hl' ht (hsz ▸ Nat.le_of_not_lt hf) hb) n, ?_⟩
  have hm := h.settle
  have hnext : u32 (sp.settle.nextEpoch + 1) = sp.settle.nextEpoch + 1 := by
    rw [SinkSpec.settle_nextEpoch]
    exact Nat.mod_eq_of_lt hn
  obtain ⟨h1, h2, h3⟩ := settle_records (α := α) s.sink
    [.otaBegin target cfg.imageSize (s.handles + 1) espOk,
      .fire (.sessionStart ⟨(settleAbort s.sink).1.nextEpoch, target.label, cfg.imageSize, 0, 0,
        cfg.resume⟩)]
  obtain ⟨k1, k2, k3⟩ := sp.settle_records
  constructor
  · refine ⟨hm.nextEpoch, ?_, rfl, .writing, rfl, rfl, rfl, Nat.two_pow_pos 32, ?_⟩
    · change u32 ((settleAbort s.sink).1.nextEpoch + 1) = _
      rw [hm.nextEpoch, hnext]
    · exact Nat.le_of_eq (Nat.zero_mul _)
  · refine ⟨?_, ?_, [.sessionStart sp.settle.nextEpoch], ?_, ?_⟩
    · dsimp only
      rw [h1, k1]
      exact (List.append_nil _).symm
    · dsimp only
      rw [h2, k2]
      rfl
    · dsimp only
      rw [k3]
    · dsimp only
      rw [h3]
      exact .cons hm.nextEpoch .nil
  · exact ⟨rfl, congrArg some hm.nextEpoch⟩

/-! ## Write -/

theorem Records.trans {es es' : List (Ev α)} {sp' sp'' : SinkSpec} (h : Records es sp sp')
    (h' : Records es' sp' sp'') : Records (es ++ es') sp sp'' := by
  obtain ⟨new, hn, hf⟩ := h.events
  obtain ⟨new', hn', hf'⟩ := h'.events
  refine ⟨?_, ?_, new ++ new', ?_, ?_⟩
  · rw [h'.saves, h.saves, List.append_assoc, saves_append]
  · rw [h'.clears, h.clears, Nat.add_assoc, clears_append]
  · rw [hn', hn, List.append_assoc]
  · rw [fired_append]
    exact List.rel_append hf hf'

/-- The sector loop on both sides, when every save succeeds. -/
theorem sectorLoop_mirrors {save : Nat → EspErr} (hsave : ∀ k, save k = espOk) {k : Sink}
    (h : Mirrors k sp) (n : Nat) :
    Mirrors (sectorLoop (α := α) save n k .ok).1 (sp.sectorLoop n) ∧
      Records (sectorLoop (α := α) save n k .ok).2.1 sp (sp.sectorLoop n) ∧
      (sectorLoop (α := α) save n k .ok).2.2 = .ok := by
  induction n generalizing k sp with
  | zero => exact ⟨h, .nil sp, rfl⟩
  | succ n ih =>
    have hb : k.bytesWritten < 2 ^ 32 := h.bytes ▸ h.bytes_lt
    have hd : k.sectorsDone * otaSectorSize ≤ k.bytesWritten := by
      rw [h.bytes, h.sectors]
      exact h.done_le
    have hrest : sp.bytesWritten - sp.sectorsDone * specSectorSize = sectorRest k := by
      rw [sectorRest_eq hb hd, h.bytes, h.sectors]
      rfl
    rw [sectorLoop, SinkSpec.sectorLoop, hrest]
    by_cases hr : otaSectorSize ≤ sectorRest k
    · obtain ⟨hlt, label, hstep⟩ := sectorStep_eq (α := α) save hb hd hr
      rw [if_pos hr, if_pos (show specSectorSize ≤ sectorRest k from hr), hstep, hsave]
      have hk : k.sectorsDone + 1 = sp.sectorsDone + 1 := by rw [h.sectors]
      have hm : Mirrors
          { k with sectorsDone := k.sectorsDone + 1, progressDirty := decide (espOk ≠ espOk) }
          { sp with
            sectorsDone := sp.sectorsDone + 1
            nvsSaves := sp.nvsSaves ++
              [(sp.imageSize, (sp.sectorsDone + 1) * specSectorSize, sp.sectorsDone + 1)]
            events := sp.events ++ [.progress (sp.sectorsDone + 1)] } := by
        refine ⟨h.epoch, h.nextEpoch, h.live, h.state, h.imageSize, h.bytes, hk, h.bytes_lt, ?_⟩
        dsimp only
        rw [← h.bytes, ← h.sectors]
        exact hlt
      obtain ⟨h1, h2, h3⟩ := ih hm
      refine ⟨h1, Records.trans ?_ h2, h3⟩
      refine ⟨?_, rfl, [.progress (sp.sectorsDone + 1)], rfl, .cons hk .nil⟩
      simp [saves, h.imageSize, h.sectors, otaSectorSize, specSectorSize]
    · rw [if_neg hr, if_neg (show ¬specSectorSize ≤ sectorRest k from hr)]
      exact ⟨h, .nil sp, rfl⟩

theorem Mirrors.current {epoch : Nat} (h : Mirrors s.sink sp) :
    sinkEpochIsCurrentLocked epoch s.sink = sp.current epoch := by
  have hst := h.state.writing_iff
  rw [Bool.eq_iff_iff]
  simp only [sinkEpochIsCurrentLocked, SinkSpec.current, h.live, h.epoch, Bool.and_eq_true,
    beq_iff_eq, hst]

theorem Mirrors.stale {epoch : Nat} (h : Mirrors s.sink sp) :
    sinkStale epoch s.sink = sp.stale epoch := by
  unfold sinkStale SinkSpec.stale
  rw [h.live, h.epoch]

/-- The second section of a write: the bytes are counted on both sides before the sector loop. -/
theorem account_mirrors (h : Mirrors s.sink sp) (hs : ∀ k, idf.save k = espOk) {epoch len : Nat}
    (hc : sinkEpochIsCurrentLocked epoch s.sink = true)
    (hlt : s.sink.bytesWritten + len < 2 ^ 32) :
    ∃ s' es, otaSinkWriteAccount (α := α) epoch len idf s = (s', es, .inr (.ret .ok none)) ∧
      Mirrors s'.sink (sp.write epoch len).1 ∧ Records es sp (sp.write epoch len).1 := by
  have hu : u32 (s.sink.bytesWritten + u32 len) = s.sink.bytesWritten + len := by
    have hl : u32 len = len := Nat.mod_eq_of_lt (by omega)
    rw [hl]
    exact Nat.mod_eq_of_lt hlt
  have hm : Mirrors { s.sink with bytesWritten := s.sink.bytesWritten + len }
      { sp with bytesWritten := sp.bytesWritten + len } := by
    refine ⟨h.epoch, h.nextEpoch, h.live, h.state, h.imageSize, ?_, h.sectors, ?_, ?_⟩
    · rw [h.bytes]
    · rw [← h.bytes]
      exact hlt
    · exact Nat.le_trans h.done_le (Nat.le_add_right _ _)
  have hrest : sectorRest { s.sink with bytesWritten := s.sink.bytesWritten + len } =
      sp.bytesWritten + len - sp.sectorsDone * specSectorSize := by
    rw [sectorRest_eq hlt]
    · dsimp only
      rw [h.bytes, h.sectors]
      rfl
    · have hd := hm.done_le
      rw [← hm.bytes, ← hm.sectors] at hd
      exact hd
  obtain ⟨h1, h2, h3⟩ := sectorLoop_mirrors (α := α) hs hm
    ((sp.bytesWritten + len - sp.sectorsDone * specSectorSize) / specSectorSize)
  unfold otaSinkWriteAccount SinkSpec.write
  rw [if_pos hc, if_pos (h.current ▸ hc), hu]
  dsimp only
  rw [hrest]
  refine ⟨_, _, congrArg (fun r => (_, _, Sum.inr (Ret.ret r none))) h3, h1, ?_⟩
  obtain ⟨new, he, hf⟩ := h2.events
  exact ⟨h2.saves, h2.clears, new, he, hf⟩

theorem write_mirrors (h : Mirrors s.sink sp) (hw : idf.write = espOk)
    (hs : ∀ k, idf.save k = espOk) {epoch : Nat} {data : List α} (hd : data ≠ [])
    (hb : sinkEpochIsCurrentLocked epoch s.sink = true →
      s.sink.bytesWritten + data.length < 2 ^ 32) :
    ∃ out, (sinkCode α B).whole 3 (.write epoch (some data), idf) s = some out ∧
      CallMirrors (.write epoch (some data)) out sp (sp.write epoch data.length) := by
  have hlen : data.length ≠ 0 := fun hh => hd (List.length_eq_zero_iff.mp hh)
  by_cases hc : sinkEpochIsCurrentLocked epoch s.sink = true
  · have he : (sinkCode α B).enter (.write epoch (some data), idf) s =
        (s, [], .inl (.writeFlash epoch s.sink.handle data)) := by
      simp [sinkCode, otaSinkEnter, otaSinkWrite, hlen, hc]
    have hf : (sinkCode α B).resume (.write epoch (some data), idf)
        (.writeFlash epoch s.sink.handle data) s =
          (s, [.otaWrite s.sink.handle data espOk], .inl (.writeAccount epoch data.length)) := by
      simp [sinkCode, otaSinkResume, hw]
    obtain ⟨s', es, ha, hm, hr⟩ := account_mirrors (α := α) h hs hc (hb hc)
    have hx : (sinkCode α B).whole 3 (.write epoch (some data), idf) s =
        some (s', .otaWrite s.sink.handle data espOk :: es, .ret .ok none) := by
      have ha' : (sinkCode α B).resume (.write epoch (some data), idf)
          (.writeAccount epoch data.length) s = (s', es, .inr (.ret .ok none)) := ha
      rw [Lib.Code.whole, he]
      simp only [Lib.Code.finish, hf, ha', List.nil_append, List.cons_append]
    have hans : (sp.write epoch data.length).2 = (.ok, none) := by
      unfold SinkSpec.write
      rw [if_pos (h.current ▸ hc)]
    refine ⟨_, hx, hm, ?_, ?_⟩
    · obtain ⟨new, hev, hfi⟩ := hr.events
      exact ⟨hr.saves, hr.clears, new, hev, hfi⟩
    · rw [hans]
      exact ⟨rfl, rfl⟩
  · have he : (sinkCode α B).enter (.write epoch (some data), idf) s =
        (s, [], .inr (.ret .sessionStale none)) := by
      simp [sinkCode, otaSinkEnter, otaSinkWrite, hlen, hc]
    unfold SinkSpec.write
    rw [if_neg (h.current ▸ hc)]
    exact ⟨_, Lib.Code.whole_inr he 3, .refused h rfl⟩

/-! ## Abort, finish, activate -/

theorem abort_mirrors (h : Mirrors s.sink sp) (epoch n : Nat) :
    ∃ out, (sinkCode α B).whole n (.sessionAbort epoch, idf) s = some out ∧
      CallMirrors (.sessionAbort epoch) out sp (sp.abort epoch) := by
  unfold SinkSpec.abort
  rw [← h.stale]
  by_cases hst : sinkStale epoch s.sink = true
  · have he : (sinkCode α B).enter (.sessionAbort epoch, idf) s =
        (s, [], .inr (.ret .sessionStale none)) := by
      simp [sinkCode, otaSinkEnter, otaSinkSessionAbort, hst]
    rw [if_pos hst]
    exact ⟨_, Lib.Code.whole_inr he n, .refused h rfl⟩
  rw [if_neg hst]
  by_cases hw : s.sink.state = .writing ∧ s.sink.handle ≠ 0
  · have he : (sinkCode α B).enter (.sessionAbort epoch, idf) s =
        (⟨settled s.sink, s.handles⟩, [.otaAbort s.sink.handle], .inr (.ret .ok none)) := by
      simp [sinkCode, otaSinkEnter, otaSinkSessionAbort, hst, hw, settled]
    exact ⟨_, Lib.Code.whole_inr he n, h.toIdle rfl rfl rfl rfl rfl rfl rfl,
      ⟨(List.append_nil _).symm, rfl, [], (List.append_nil _).symm, .nil⟩, ⟨rfl, rfl⟩⟩
  · have he : (sinkCode α B).enter (.sessionAbort epoch, idf) s =
        (⟨sinkToIdleLocked s.sink, s.handles⟩, [], .inr (.ret .ok none)) := by
      simp [sinkCode, otaSinkEnter, otaSinkSessionAbort, hst, hw]
    exact ⟨_, Lib.Code.whole_inr he n, h.toIdle rfl rfl rfl rfl rfl rfl rfl,
      ⟨(List.append_nil _).symm, rfl, [], (List.append_nil _).symm, .nil⟩, ⟨rfl, rfl⟩⟩

theorem finish_mirrors (h : Mirrors s.sink sp)
    (hend : idf.end = espOk ↔ s.sink.bytesWritten = s.sink.imageSize) (epoch : Nat) :
    ∃ out, (sinkCode α B).whole 3 (.finish epoch, idf) s = some out ∧
      CallMirrors (.finish epoch) out sp (sp.finish epoch) := by
  have hwr := h.state.writing_iff
  rw [h.bytes, h.imageSize] at hend
  unfold SinkSpec.finish
  rw [← h.stale]
  by_cases hst : sinkStale epoch s.sink = true
  · have he : (sinkCode α B).enter (.finish epoch, idf) s =
        (s, [], .inr (.ret .sessionStale none)) := by
      simp [sinkCode, otaSinkEnter, otaSinkFinish, hst]
    rw [if_pos hst]
    exact ⟨_, Lib.Code.whole_inr he 3, .refused h rfl⟩
  rw [if_neg hst]
  by_cases hw : s.sink.state = .writing
  · have he : (sinkCode α B).enter (.finish epoch, idf) s =
        (⟨{ s.sink with handle := 0 }, s.handles⟩, [], .inl (.finishEnd s.sink.handle)) := by
      simp [sinkCode, otaSinkEnter, otaSinkFinish, hst, hw]
    rw [if_neg (not_not.mpr (hwr.mp hw))]
    by_cases hend' : idf.end = espOk
    · have hx : (sinkCode α B).whole 3 (.finish epoch, idf) s =
          some (⟨{ s.sink with handle := 0, state := .validated }, s.handles⟩,
            [.otaEnd s.sink.handle espOk, .fire .validated], .ret .ok none) := by
        rw [Lib.Code.whole, he]
        simp [Lib.Code.finish, sinkCode, otaSinkResume, otaSinkFinishLock, hend']
      rw [if_neg (not_not.mpr (hend.mp hend'))]
      refine ⟨_, hx, ?_, ?_, ⟨rfl, rfl⟩⟩
      · exact ⟨h.epoch, h.nextEpoch, h.live, .validated, h.imageSize, h.bytes, h.sectors,
          h.bytes_lt, h.done_le⟩
      · exact ⟨(List.append_nil _).symm, rfl, [.validated sp.epoch], rfl, .cons trivial .nil⟩
    · have hx : (sinkCode α B).whole 3 (.finish epoch, idf) s =
          some (⟨settled s.sink, s.handles⟩,
            [.otaEnd s.sink.handle idf.end, .otaAbort s.sink.handle,
              sinkFireError .validateFail idf.end], .ret .validateFail none) := by
        rw [Lib.Code.whole, he]
        simp [Lib.Code.finish, sinkCode, otaSinkResume, otaSinkFinishLock, hend', settled]
      have hm : Mirrors (settled s.sink) sp.toIdle := h.toIdle rfl rfl rfl rfl rfl rfl rfl
      rw [if_pos (fun hh => hend' (hend.mpr hh))]
      refine ⟨_, hx, ?_, ?_, ⟨rfl, rfl⟩⟩
      · exact ⟨hm.epoch, hm.nextEpoch, hm.live, hm.state, hm.imageSize, hm.bytes, hm.sectors,
          hm.bytes_lt, hm.done_le⟩
      · exact ⟨(List.append_nil _).symm, rfl, [.error .validateFail], rfl, .cons rfl .nil⟩
  · have he : (sinkCode α B).enter (.finish epoch, idf) s =
        (s, [], .inr (.ret .noSession none)) := by
      simp [sinkCode, otaSinkEnter, otaSinkFinish, hst, hw]
    rw [if_pos (fun hh => hw (hwr.mpr hh))]
    exact ⟨_, Lib.Code.whole_inr he 3, .refused h rfl⟩

theorem activate_mirrors (h : Mirrors s.sink sp) (hb : idf.setBoot = espOk) (epoch : Nat)
    (rebootNow : Bool) :
    ∃ out, (sinkCode α B).whole 3 (.activate epoch rebootNow, idf) s = some out ∧
      CallMirrors (.activate epoch rebootNow) out sp (sp.activate epoch) := by
  unfold SinkSpec.activate
  rw [← h.stale]
  by_cases hst : sinkStale epoch s.sink = true
  · have he : (sinkCode α B).enter (.activate epoch rebootNow, idf) s =
        (s, [], .inr (.ret .sessionStale none)) := by
      simp [sinkCode, otaSinkEnter, otaSinkActivate, hst]
    rw [if_pos hst]
    exact ⟨_, Lib.Code.whole_inr he 3, .refused h rfl⟩
  rw [if_neg hst]
  have hl : s.sink.sessionLive = true := (sinkStale_eq_false.mp (Bool.not_eq_true _ ▸ hst)).1
  have hva := h.state.validated_iff (h.live ▸ hl)
  by_cases hv : s.sink.state = .validated
  · have he : (sinkCode α B).enter (.activate epoch rebootNow, idf) s =
        (⟨{ s.sink with state := .activated }, s.handles⟩, [],
          .inl (.activateBoot s.sink.target rebootNow)) := by
      simp [sinkCode, otaSinkEnter, otaSinkActivate, hst, hv]
    have hx : (sinkCode α B).whole 3 (.activate epoch rebootNow, idf) s =
        some (⟨{ s.sink with state := .activated, sessionLive := false }, s.handles⟩,
          [.setBoot s.sink.target espOk, .progressClear idf.clear, .fire .activated],
          if rebootNow then .restart else .ret .ok none) := by
      rw [Lib.Code.whole, he]
      simp [Lib.Code.finish, sinkCode, otaSinkResume, otaSinkActivateClose, hb]
    rw [if_neg (not_not.mpr (hva.mp hv))]
    refine ⟨_, hx, ?_, ?_, ?_⟩
    · refine ⟨h.epoch, h.nextEpoch, rfl, ?_, h.imageSize, h.bytes, h.sectors, h.bytes_lt,
        h.done_le⟩
      change SameState .activated sp.state false
      rw [hva.mp hv]
      exact .activated
    · exact ⟨(List.append_nil _).symm, rfl, [.activated sp.epoch], rfl, .cons trivial .nil⟩
    · cases rebootNow <;> exact ⟨rfl, rfl⟩
  · have he : (sinkCode α B).enter (.activate epoch rebootNow, idf) s =
        (s, [], .inr (.ret .noSession none)) := by
      simp [sinkCode, otaSinkEnter, otaSinkActivate, hst, hv]
    rw [if_pos (fun hh => hv (hva.mpr hh))]
    exact ⟨_, Lib.Code.whole_inr he 3, .refused h rfl⟩

theorem invalidate_mirrors (h : Mirrors s.sink sp) : Mirrors (invalidate s).sink sp.invalidate := by
  have hst := h.state
  refine ⟨h.epoch, h.nextEpoch, rfl, ?_, h.imageSize, h.bytes, h.sectors, h.bytes_lt, h.done_le⟩
  change SameState (if s.sink.state = .writing then .abortPending else s.sink.state)
    (if sp.state = .writing then .abortPending else sp.state) false
  by_cases hw : s.sink.state = .writing
  · rw [if_pos hw, if_pos (hst.writing_iff.mp hw)]
    exact .abortPending
  · rw [if_neg hw, if_neg (fun hh => hw (hst.writing_iff.mpr hh))]
    exact hst.dead hw

/-! ## A sequence of calls -/

/-- The calls of the IDF and of the progress store succeed, but that `esp_ota_end` fails exactly for
a session whose bytes are not those of the image; a write has data, and the bytes of a session stay
below `2 ^ 32`. -/
structure Assumed (x : SinkSys α) (c : ApiCall α × Idf) : Prop where
  begin : c.2.begin = espOk
  write : c.2.write = espOk
  setBoot : c.2.setBoot = espOk
  save : ∀ k, c.2.save k = espOk
  clear : c.2.clear = espOk
  «end» : ∀ epoch, c.1 = .finish epoch →
    (c.2.end = espOk ↔ x.st.sink.bytesWritten = x.st.sink.imageSize)
  data : ∀ epoch data, c.1 = .write epoch data → data ≠ []
  bytes : ∀ epoch data, c.1 = .write epoch data →
    sinkEpochIsCurrentLocked epoch x.st.sink = true →
    x.st.sink.bytesWritten + data.length < 2 ^ 32

/-- The number of opens. -/
def openCalls (cs : List (ApiCall α × Idf)) : Nat := (cs.map (·.1.opens)).sum

/-- Outside a call, or after a restart, the sink agrees with the specification `r.1`, and its calls
have returned the answers `r.2`. -/
structure Agrees (x : SinkSys α) (r : SinkSpec × List (SpecRet × Option Nat)) : Prop where
  place : x.place = .idle ∨ x.place = .gone
  returns : List.Forall₂ Answers (returns x.log) r.2
  epochCurrent : otaSinkEpochCurrent x.st.sink = r.1.epochCurrent
  bytesWritten : x.st.sink.bytesWritten = r.1.bytesWritten
  sectorsDone : x.st.sink.sectorsDone = r.1.sectorsDone
  saves : saves (events x.log) = r.1.nvsSaves
  clears : clears (events x.log) = r.1.nvsCleared
  fired : List.Forall₂ Shows (fired (events x.log)) r.1.events

/-- What a sequence of calls keeps. -/
structure Simulates (x : SinkSys α) (r : SinkSpec × List (SpecRet × Option Nat)) (n : Nat) :
    Prop where
  place : x.place = .idle ∨ x.place = .gone
  mirrors : Mirrors x.st.sink r.1
  returns : List.Forall₂ Answers (BleOta.returns x.log) r.2
  records : Records (events x.log) .start r.1
  nextEpoch : r.1.nextEpoch ≤ n + 1

theorem Simulates.agrees {x : SinkSys α} {r : SinkSpec × List (SpecRet × Option Nat)} {n : Nat}
    (h : Simulates x r n) : Agrees x r := by
  obtain ⟨new, he, hf⟩ := h.records.events
  refine ⟨h.place, h.returns, ?_, h.mirrors.bytes, h.mirrors.sectors, ?_, ?_, ?_⟩
  · unfold otaSinkEpochCurrent SinkSpec.epochCurrent
    rw [h.mirrors.live, h.mirrors.epoch]
    rfl
  · exact h.records.saves.symm
  · rw [h.records.clears]
    exact (Nat.zero_add _).symm
  · rw [he]
    exact hf

theorem Simulates.init : Simulates (α := α) sinkInit (.start, []) 0 :=
  ⟨.inl rfl, .init, .nil, .nil _, Nat.le_refl _⟩

/-- A call that returns. -/
theorem Simulates.call {x : SinkSys α} {r : SinkSpec × List (SpecRet × Option Nat)} {n k : Nat}
    {o : SinkCall α} {out : SinkSt × List (Ev α) × Ret} {res : SinkSpec × SpecRet × Option Nat}
    (h : Simulates x r n) (hm : CallMirrors o.1 out r.1 res)
    (hn : res.1.nextEpoch ≤ r.1.nextEpoch + k) :
    Simulates ((sinkCode α B).returnTo o x out) (res.1, r.2 ++ [res.2]) (n + k) := by
  have hlog : ((sinkCode α B).returnTo o x out).log =
      x.log ++ [.call o] ++ out.2.1.map .ev ++ [.ret o out.2.2] := rfl
  constructor
  · change (sinkCode α B).next o (.inr out.2.2) = _ ∨ (sinkCode α B).next o (.inr out.2.2) = _
    unfold Lib.Code.next
    dsimp only
    split
    · exact .inr rfl
    · exact .inl rfl
  · exact hm.mirrors
  · rw [hlog, returns_call]
    exact List.rel_append h.returns (.cons hm.answers .nil)
  · rw [hlog]
    simp only [Lib.Code.events_append, Lib.Code.events_call, Lib.Code.events_nil,
      Lib.Code.events_map_ev, Lib.Code.events_ret, List.append_nil]
    exact h.records.trans hm.records
  · have hle := h.nextEpoch
    dsimp only
    omega

/-- **One call** on both sides: outside a call the sink makes it, and it returns. -/
theorem Simulates.step {x : SinkSys α} {r : SinkSpec × List (SpecRet × Option Nat)} {n : Nat}
    {c : ApiCall α × Idf} {target : Partition} (h : Simulates x r n) (hp : x.place = .idle)
    (ht : B.running.bind B.nextUpdate = some target) (hsz : target.size = partitionSize)
    (hn : n + c.1.opens < 2 ^ 32 - 1) (hc : Assumed x c) :
    ∃ x', apiStep B c x = some x' ∧
      Simulates x' ((r.1.call c.1).1, r.2 ++ (r.1.call c.1).2.toList) (n + c.1.opens) := by
  obtain ⟨c, idf⟩ := c
  have hnext := r.1.call_nextEpoch c
  have hret : ∀ {op : Op α} {res : SinkSpec × SpecRet × Option Nat}, c.op = some op →
      (∃ out, (sinkCode α B).whole 3 (op, idf) x.st = some out ∧ CallMirrors op out r.1 res) →
      res.1.nextEpoch ≤ r.1.nextEpoch + c.opens →
      ∃ x', apiStep B (c, idf) x = some x' ∧
        Simulates x' (res.1, r.2 ++ [res.2]) (n + c.opens) := by
    rintro op res hop ⟨out, ho, hm⟩ hle
    refine ⟨(sinkCode α B).returnTo (op, idf) x out, ?_, h.call hm hle⟩
    simp only [apiStep, hp, hop, ho, Option.map_some]
  cases c with
  | sessionOpen cfg =>
    have hlt : r.1.nextEpoch + 1 < 2 ^ 32 := by
      have hle := h.nextEpoch
      simp only [ApiCall.opens] at hn
      omega
    exact hret rfl (openSession_mirrors h.mirrors ht hsz hc.begin hlt cfg 3) hnext
  | write epoch data =>
    exact hret rfl
      (write_mirrors h.mirrors hc.write hc.save (hc.data _ _ rfl) (hc.bytes _ _ rfl)) hnext
  | invalidate =>
    have hlog : BleOta.returns (x.log ++ [.poke]) = BleOta.returns x.log := by
      simp [BleOta.returns]
    have hst : apiStep B (.invalidate, idf) x = (sinkCode α B).step .poke x := by
      simp only [apiStep, hp, ApiCall.op]
    refine ⟨_, hst, .inl hp, invalidate_mirrors h.mirrors, ?_, ?_, h.nextEpoch⟩
    · rw [hlog]
      exact List.append_nil _ ▸ h.returns
    · obtain ⟨h1, h2, h3⟩ := h.records
      simp only [Lib.Code.events_append, Lib.Code.events_poke, Lib.Code.events_nil,
        List.append_nil]
      exact ⟨h1, h2, h3⟩
  | sessionAbort epoch => exact hret rfl (abort_mirrors h.mirrors epoch 3) hnext
  | finish epoch => exact hret rfl (finish_mirrors h.mirrors (hc.end _ rfl) epoch) hnext
  | activate epoch rebootNow =>
    exact hret rfl (activate_mirrors h.mirrors hc.setBoot epoch rebootNow) hnext

/-- **The sink refines its specification**: every call of a sequence returns, up to a restart, and
after each of them the answers so far are those of the specification, and the two sides agree on the
session, the saves, the clears and the events. -/
theorem refines_spec {target : Partition} (ht : B.running.bind B.nextUpdate = some target)
    (hsz : target.size = partitionSize) {cs : List (ApiCall α × Idf)}
    (hn : openCalls cs < 2 ^ 32 - 1)
    (hc : ∀ pre c x, pre ++ [c] <+: cs → (apiSystem α B).exec pre sinkInit = some x →
      Assumed x c) :
    ∃ pre x, pre <+: cs ∧ (pre = cs ∨ x.place = .gone) ∧
      (apiSystem α B).exec pre sinkInit = some x ∧ Agrees x (SinkSpec.run (pre.map (·.1))) := by
  suffices h : ∃ pre x, pre <+: cs ∧ (pre = cs ∨ x.place = .gone) ∧
      (apiSystem α B).exec pre sinkInit = some x ∧
      Simulates x (SinkSpec.run (pre.map (·.1))) (openCalls pre) by
    obtain ⟨pre, x, h1, h2, h3, h4⟩ := h
    exact ⟨pre, x, h1, h2, h3, h4.agrees⟩
  induction cs using List.reverseRecOn with
  | nil => exact ⟨[], sinkInit, List.prefix_refl _, .inl rfl, rfl, .init⟩
  | append_singleton cs c ih =>
    have hopens : openCalls (cs ++ [c]) = openCalls cs + c.1.opens := by simp [openCalls]
    rw [hopens] at hn
    obtain ⟨pre, x, hpre, hend, hx, hs⟩ := ih (Nat.lt_of_le_of_lt (Nat.le_add_right _ _) hn)
      (fun pre c' y hp => hc pre c' y (hp.trans (List.prefix_append _ _)))
    rcases hend with rfl | hgone
    · rcases hs.place with hidle | hgone
      · obtain ⟨x', hst, hs'⟩ := hs.step hidle ht hsz hn (hc pre c x (List.prefix_refl _) hx)
        refine ⟨pre ++ [c], x', List.prefix_refl _, .inl rfl, Lib.Lts.exec_snoc.mpr ⟨x, hx, hst⟩,
          ?_⟩
        rw [hopens, List.map_append, List.map_singleton, SinkSpec.run_snoc]
        exact hs'
      · exact ⟨pre, x, List.prefix_append _ _, .inr hgone, hx, hs⟩
    · exact ⟨pre, x, hpre.trans (List.prefix_append _ _), .inr hgone, hx, hs⟩

/-- A whole session of four bytes, and a write after it. -/
def fourBytes : List (ApiCall UInt8 × Idf) :=
  [(.sessionOpen ⟨4, false⟩, .allOk), (.write 1 [1, 2, 3, 4], .allOk), (.finish 1, .allOk),
    (.activate 1 false, .allOk), (.invalidate, .allOk), (.write 1 [5], .allOk)]

/-- A call that the IDF answers with `ESP_OK`. -/
theorem Assumed.of_ok {x : SinkSys α} {c : ApiCall α}
    (hf : ∀ epoch, c = .finish epoch → x.st.sink.bytesWritten = x.st.sink.imageSize)
    (hw : ∀ epoch data, c = .write epoch data →
      data ≠ [] ∧ x.st.sink.bytesWritten + data.length < 2 ^ 32) : Assumed x (c, .allOk) :=
  ⟨rfl, rfl, rfl, fun _ => rfl, rfl, fun epoch h => ⟨fun _ => hf epoch h, fun _ => rfl⟩,
    fun epoch data h => (hw epoch data h).1, fun epoch data h _ => (hw epoch data h).2⟩

theorem refines_spec_fourBytes :
    SinkSpec.run (fourBytes.map (·.1)) =
        (⟨1, 2, false, .validated, 4, 4, 0, [], 1,
            [.sessionStart 1, .validated 1, .activated 1]⟩,
          [(.ok, some 1), (.ok, none), (.ok, none), (.ok, none), (.stale, none)]) ∧
      ∃ pre x, pre <+: fourBytes ∧ (pre = fourBytes ∨ x.place = .gone) ∧
        (apiSystem UInt8 .otaSlots).exec pre sinkInit = some x ∧
        Agrees x (SinkSpec.run (pre.map (·.1))) := by
  have hm : (apiSystem UInt8 .otaSlots).Meets Assumed fourBytes sinkInit := by
    refine ⟨.of_ok ?_ ?_, _, rfl, .of_ok ?_ ?_, _, rfl, .of_ok ?_ ?_, _, rfl, .of_ok ?_ ?_, _, rfl,
      .of_ok ?_ ?_, _, rfl, .of_ok ?_ ?_, _, rfl, trivial⟩
    all_goals first | (rintro _ ⟨⟩ <;> rfl) | (rintro _ _ ⟨⟩ <;> exact ⟨by simp, by decide⟩)
  refine ⟨rfl, refines_spec rfl rfl (by decide) fun pre c x hp hx => ?_⟩
  obtain ⟨post, hpost⟩ := hp
  rw [List.append_assoc, List.singleton_append] at hpost
  exact Lib.Lts.meets_at hm hpost.symm hx

end BleOta
