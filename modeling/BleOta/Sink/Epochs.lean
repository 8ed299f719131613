import BleOta.Sink.Invariant
import Mathlib.Data.List.Induction
import Mathlib.Data.List.Nodup

/-!
# The epochs of the sink

* `EpochOk`: the epochs that opens have returned are 1, 2, 3, … in `uint32_t`, the last one is the
  epoch of the sink, and a live session was not invalidated since its open.
* `epochs_isolated`: with fewer than `2^32 - 1` opens the epochs are increasing and not zero, and a
  call with an epoch that is not the one of the live session is refused as stale and changes
  nothing.
-/

namespace BleOta

open Lib.Code (events returned)

variable {α : Type} {B : Board}

/-! ## What a log says about the opens -/

/-- The epoch that an entry returns: the one of a successful open. -/
def openedBy : SinkEntry α → Option Nat
  | .ret _ (.ret .ok (some e)) => some e
  | _ => none

/-- The epochs that the opens of a log have returned. -/
def issued (log : List (SinkEntry α)) : List Nat := log.filterMap openedBy

/-- The entries after the last successful open. -/
def sinceOpen (log : List (SinkEntry α)) : List (SinkEntry α) :=
  log.foldl (fun l e => if (openedBy e).isSome then [] else l ++ [e]) []

@[simp] theorem issued_append (l l' : List (SinkEntry α)) :
    issued (l ++ l') = issued l ++ issued l' := List.filterMap_append

@[simp] theorem issued_map_ev (es : List (Ev α)) :
    issued (es.map .ev : List (SinkEntry α)) = [] := by
  induction es with
  | nil => rfl
  | cons e es ih => exact ih

@[simp] theorem issued_nil : issued ([] : List (SinkEntry α)) = [] := rfl

@[simp] theorem issued_call (o : SinkCall α) (l : List (SinkEntry α)) :
    issued (.call o :: l) = issued l := rfl

@[simp] theorem issued_ev (e : Ev α) (l : List (SinkEntry α)) :
    issued (.ev e :: l) = issued l := rfl

@[simp] theorem issued_poke (l : List (SinkEntry α)) : issued (.poke :: l) = issued l := rfl

@[simp] theorem issued_open (o : SinkCall α) (e : Nat) (l : List (SinkEntry α)) :
    issued (.ret o (.ret .ok (some e)) :: l) = e :: issued l := rfl

@[simp] theorem issued_ret (o : SinkCall α) (err : OtaSinkErr) (l : List (SinkEntry α)) :
    issued (.ret o (.ret err none) :: l) = issued l := by
  cases err <;> rfl

theorem sinceOpen_append {l new : List (SinkEntry α)} (h : issued new = []) :
    sinceOpen (l ++ new) = sinceOpen l ++ new := by
  induction new using List.reverseRecOn with
  | nil => simp
  | append_singleton new e ih =>
    rw [issued_append, List.append_eq_nil_iff] at h
    have he : openedBy e = none := by
      cases hh : openedBy e with
      | none => rfl
      | some n => simp [issued, hh] at h
    have hu : sinceOpen ((l ++ new) ++ [e]) = sinceOpen (l ++ new) ++ [e] := by
      simp [sinceOpen, he]
    rw [← List.append_assoc, hu, ih h.1, List.append_assoc]

theorem sinceOpen_open (l : List (SinkEntry α)) (o : SinkCall α) (e : Nat) :
    sinceOpen (l ++ [.ret o (.ret .ok (some e))]) = [] := by
  simp [sinceOpen, openedBy]

/-- The result of a section is a successful open or no epoch. -/
theorem issued_returned (o : SinkCall α) {r : Pc α ⊕ Ret} (h : ∀ e, r ≠ .inr (.ret .ok (some e))) :
    issued (returned o r : List (SinkEntry α)) = [] := by
  rcases r with p | r
  · rfl
  · rcases r with ⟨err, e⟩ | _
    · cases err <;> cases e <;> first | rfl | exact absurd rfl (h _)
    · rfl

theorem poke_not_mem_returned (o : SinkCall α) (r : Pc α ⊕ Ret) :
    .poke ∉ (returned o r : List (SinkEntry α)) := by
  cases r <;> simp [returned]

/-! ## The epochs along a run -/

/-- What a section does to the epochs: nothing, or it is a successful open. -/
theorem Sect.epochs {o : SinkCall α} {p : Option (Pc α)} {s : SinkSt} {out : Out α}
    (hs : Sect B o p s out) :
    (out.1.sink.nextEpoch = s.sink.nextEpoch ∧ out.1.sink.epoch = s.sink.epoch ∧
      (out.1.sink.sessionLive = true → s.sink.sessionLive = true) ∧
      ∀ e, out.2.2 ≠ .inr (.ret .ok (some e))) ∨
    (out.1.sink.epoch = s.sink.nextEpoch ∧
      out.1.sink.nextEpoch = u32 (s.sink.nextEpoch + 1) ∧
      out.2.2 = .inr (.ret .ok (some s.sink.nextEpoch))) := by
  have hset : (settleAbort s.sink).1.nextEpoch = s.sink.nextEpoch ∧
      (settleAbort s.sink).1.epoch = s.sink.epoch ∧
      ((settleAbort s.sink).1.sessionLive = true → s.sink.sessionLive = true) := by
    rcases settleAbort_cases s.sink with ⟨-, he⟩ | ⟨-, -, he⟩ | ⟨-, -, he⟩ <;>
      simp [he, settled, sinkToIdleLocked]
  cases hs with
  | begins => exact .inr ⟨hset.1, by rw [← hset.1]; rfl, by rw [hset.1]⟩
  | notOpened | beginFails => exact .inl ⟨hset.1, hset.2.1, hset.2.2, by simp⟩
  | closed => exact .inl ⟨rfl, rfl, by simp, by intro e; split <;> simp⟩
  | endFailed | aborts | drops =>
    exact .inl ⟨rfl, rfl, by simp [settled, sinkToIdleLocked], by simp⟩
  | refused | writes | flashFails | flashed | staleAfter | accounts | finishes | ended | validated
    | activates | bootFailed | booted | undone | cleared =>
    exact .inl ⟨rfl, rfl, id, by simp⟩

/-- The epochs of a state and a log (module doc). -/
structure EpochOk (s : SinkSt) (log : List (SinkEntry α)) : Prop where
  next : s.sink.nextEpoch = u32 ((issued log).length + 1)
  list : issued log = (List.range (issued log).length).map fun i => u32 (i + 1)
  cur : s.sink.epoch = u32 (issued log).length
  live : s.sink.sessionLive = true → issued log ≠ [] ∧ .poke ∉ sinceOpen log

variable {s s' : SinkSt} {log new : List (SinkEntry α)}

/-- After entries that return no epoch. -/
theorem EpochOk.keep (h : EpochOk s log) (hi : issued new = []) (hp : .poke ∉ new)
    (hn : s'.sink.nextEpoch = s.sink.nextEpoch) (he : s'.sink.epoch = s.sink.epoch)
    (hl : s'.sink.sessionLive = true → s.sink.sessionLive = true) : EpochOk s' (log ++ new) := by
  have hil : issued (log ++ new) = issued log := by rw [issued_append, hi, List.append_nil]
  refine ⟨?_, ?_, ?_, fun hs => ?_⟩
  · rw [hil, hn, h.next]
  · rw [hil]; exact h.list
  · rw [hil, he, h.cur]
  · obtain ⟨h1, h2⟩ := h.live (hl hs)
    rw [hil, sinceOpen_append hi]
    exact ⟨h1, fun hm => (List.mem_append.mp hm).elim h2 hp⟩

/-- After a successful open. -/
theorem EpochOk.opened {o : SinkCall α} (h : EpochOk s log) (hi : issued new = [])
    (he : s'.sink.epoch = s.sink.nextEpoch)
    (hn : s'.sink.nextEpoch = u32 (s.sink.nextEpoch + 1)) :
    EpochOk s' (log ++ new ++ [.ret o (.ret .ok (some s.sink.nextEpoch))]) := by
  have hil : issued (log ++ new ++ [.ret o (.ret .ok (some s.sink.nextEpoch))]) =
      issued log ++ [s.sink.nextEpoch] := by
    simp [hi]
  refine ⟨?_, ?_, ?_, fun _ => ⟨?_, ?_⟩⟩
  · rw [hil, hn, h.next, List.length_append, List.length_singleton]
    simp only [u32]
    omega
  · rw [hil, List.length_append, List.length_singleton, List.range_succ, List.map_append,
      ← h.list, h.next]
    rfl
  · rw [hil, he, h.next, List.length_append, List.length_singleton]
  · rw [hil]
    simp
  · rw [sinceOpen_open]
    exact List.not_mem_nil

theorem EpochOk.section {o : SinkCall α} {p : Option (Pc α)} {out : Out α} (h : EpochOk s log)
    (hs : Sect B o p s out) :
    EpochOk out.1 (log ++ out.2.1.map .ev ++ returned o out.2.2) := by
  rcases hs.epochs with ⟨hn, he, hl, hr⟩ | ⟨he, hn, hr⟩
  · rw [List.append_assoc]
    refine h.keep ?_ ?_ hn he hl
    · rw [issued_append, issued_map_ev, issued_returned o hr]
      rfl
    · simp [poke_not_mem_returned]
  · rw [hr]
    exact h.opened (issued_map_ev _) he hn

theorem EpochOk.poke (h : EpochOk s log) : EpochOk (invalidate s) (log ++ [.poke]) := by
  have hil : issued (log ++ [.poke]) = issued log := by simp
  refine ⟨?_, ?_, ?_, fun hl => ?_⟩
  · rw [hil]; exact h.next
  · rw [hil]; exact h.list
  · rw [hil]; exact h.cur
  · simp at hl

theorem EpochOk.reach {x : SinkSys α} (h : (sinkSystem α B).Reach x) : EpochOk x.st x.log := by
  refine h.invariant (I := fun x => EpochOk x.st x.log) (fun x hx => ?_)
    (fun m x x' _ hok hst => ?_)
  · cases hx
    exact ⟨rfl, rfl, rfl, fun hl => by cases hl⟩
  · rcases sinkCode_step_cases hst with ⟨o, out, -, -, hs, rfl⟩ | ⟨o, p, out, -, -, hs, rfl⟩ |
      ⟨-, rfl⟩
    · rw [Lib.Code.after_st, Lib.Code.after_log]
      have hc : EpochOk x.st (x.log ++ [.call o]) :=
        hok.keep rfl (by simp) rfl rfl id
      exact hc.section hs
    · rw [Lib.Code.after_st, Lib.Code.after_log]
      exact hok.section hs
    · exact hok.poke

/-! ## Isolation -/

variable {x : SinkSys α} {e : Nat}

/-- The epoch is not the one of the live session. -/
def NotLive (s : Sink) (e : Nat) : Prop := ¬(s.sessionLive = true ∧ e = s.epoch)

theorem NotLive.stale {s : Sink} (h : NotLive s e) :
    sinkStale e s = true ∧ sinkEpochIsCurrentLocked e s = false := by
  constructor
  · by_contra hs
    exact h (sinkStale_eq_false.mp (Bool.not_eq_true _ ▸ hs))
  · rw [Bool.eq_false_iff]
    intro hs
    obtain ⟨hl, he, -⟩ := sinkEpochIsCurrentLocked_iff.mp hs
    exact h ⟨hl, he⟩

/-- The calls that carry the epoch `e`, writes with data. -/
inductive Carries (e : Nat) : Op α → Prop
  | write {data : List α} : data ≠ [] → Carries e (.write e (some data))
  | finish : Carries e (.finish e)
  | activate {reboot : Bool} : Carries e (.activate e reboot)
  | sessionAbort : Carries e (.sessionAbort e)

/-- A call with an epoch that is not live is refused in its first section. -/
theorem NotLive.refused {s : SinkSt} (h : NotLive s.sink e) {op : Op α} (hc : Carries e op)
    (idf : Idf) : otaSinkEnter B op idf s = (s, [], .inr (.ret .sessionStale none)) := by
  obtain ⟨hs, hcur⟩ := h.stale
  cases hc with
  | write hd => simp [otaSinkEnter, otaSinkWrite, hd, hcur]
  | finish => simp [otaSinkEnter, otaSinkFinish, hs]
  | activate => simp [otaSinkEnter, otaSinkActivate, hs]
  | sessionAbort => simp [otaSinkEnter, otaSinkSessionAbort, hs]

/-- With fewer than `2^32 - 1` opens no epoch has wrapped. -/
theorem EpochOk.exact (h : EpochOk s log) (hn : (issued log).length < 2 ^ 32 - 1) :
    issued log = (List.range (issued log).length).map (· + 1) ∧
      s.sink.epoch = (issued log).length := by
  constructor
  · refine h.list.trans (List.map_congr_left fun i hi => ?_)
    have := List.mem_range.mp hi
    exact Nat.mod_eq_of_lt (by omega)
  · rw [h.cur]
    exact Nat.mod_eq_of_lt (by omega)

/-- With fewer than `2^32` opens no epoch was returned twice. -/
theorem EpochOk.nodup (h : EpochOk s log) (hn : (issued log).length < 2 ^ 32) :
    (issued log).Nodup := by
  rw [h.list]
  refine List.Nodup.map_on (fun i hi j hj hij => ?_) List.nodup_range
  have h1 := List.mem_range.mp hi
  have h2 := List.mem_range.mp hj
  simp only [u32] at hij
  omega

/-- The epochs that are not live, as the callers can know them: issued before the latest open,
invalidated since the latest open, zero, or never issued. -/
theorem EpochOk.notLive (h : EpochOk s log) (hn : (issued log).length < 2 ^ 32 - 1)
    (he : e ∈ (issued log).dropLast ∨ .poke ∈ sinceOpen log ∨ e = 0 ∨ e ∉ issued log) :
    NotLive s.sink e := by
  rintro ⟨hl, rfl⟩
  obtain ⟨hne, hp⟩ := h.live hl
  obtain ⟨hlist, hcur⟩ := h.exact hn
  have hpos : 0 < (issued log).length := List.length_pos_iff.mpr hne
  rcases he with he | he | he | he
  · rw [hlist, ← List.map_dropLast] at he
    obtain ⟨i, hi, hie⟩ := List.mem_map.mp he
    have : i < (issued log).length - 1 := by
      rw [show (issued log).length = (issued log).length - 1 + 1 by omega, List.range_succ,
        List.dropLast_concat] at hi
      exact List.mem_range.mp hi
    omega
  · exact hp he
  · omega
  · rw [hlist] at he
    refine he (List.mem_map.mpr ⟨(issued log).length - 1, List.mem_range.mpr (by omega), ?_⟩)
    omega

/-- **Epoch isolation.** With fewer than `2^32 - 1` successful opens the epochs are not zero and
strictly increasing; and a call with an epoch that is not the one of the live session, as is every
epoch issued before the latest open, every epoch after an invalidation, zero, and every value
never issued, returns `OTA_SINK_ERR_SESSION_STALE`, with no event and no change of the state. -/
theorem epochs_isolated (h : (sinkSystem α B).Reach x) (hn : (issued x.log).length < 2 ^ 32 - 1) :
    (∀ e ∈ issued x.log, e ≠ 0) ∧ (issued x.log).Pairwise (· < ·) ∧
    (∀ e, e ∈ (issued x.log).dropLast ∨ .poke ∈ sinceOpen x.log ∨ e = 0 ∨ e ∉ issued x.log →
      NotLive x.st.sink e) ∧
    ∀ e, NotLive x.st.sink e → ∀ op, Carries e op → ∀ idf, x.place = .idle →
      (sinkCode α B).step (.call (op, idf)) x = some { x with
        log := x.log ++ [.call (op, idf), .ret (op, idf) (.ret .sessionStale none)] } := by
  have hok := EpochOk.reach h
  have hlist := (hok.exact hn).1
  refine ⟨fun e he => ?_, ?_, fun e he => hok.notLive hn he, fun e he op hc idf hp => ?_⟩
  · rw [hlist] at he
    obtain ⟨i, -, rfl⟩ := List.mem_map.mp he
    exact Nat.succ_ne_zero i
  · rw [hlist]
    exact List.Pairwise.map _ (fun _ _ => Nat.succ_lt_succ) List.pairwise_lt_range
  · have hr := he.refused (B := B) hc idf
    simp only [Lib.Code.step, hp, sinkCode, hr, Lib.Code.after_inr, List.map_nil, List.append_nil,
      List.append_assoc, List.cons_append, List.nil_append]
    rw [if_neg (by simp)]

/-- After a session was opened and invalidated, a write with its epoch is refused. -/
theorem epochs_isolated_invalidated :
    let x := (sinkSystem UInt8 .otaSlots).run
      [okCall (.sessionOpen (some ⟨4, false⟩)), .poke] sinkInit
    (sinkCode UInt8 .otaSlots).step (okCall (.write 1 (some [7]))) x = some { x with
      log := x.log ++ [.call (.write 1 (some [7]), .allOk),
        .ret (.write 1 (some [7]), .allOk) (.ret .sessionStale none)] } := by
  obtain ⟨-, -, h3, h4⟩ := epochs_isolated (Lib.Lts.run_reach (S := sinkSystem UInt8 .otaSlots)
    (.init rfl) [okCall (.sessionOpen (some ⟨4, false⟩)), .poke]) (by decide)
  exact h4 1 (h3 1 (.inr (.inl (.head _)))) _ (.write (by simp)) _ rfl

end BleOta
