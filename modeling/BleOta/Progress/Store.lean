import BleOta.Progress.Lemmas
import BleOta.Lib.Cell

/-!
# The progress store over whole runs

A save or a clear that is not answered by `ESP_OK` (also one that a power loss cuts off) may be in
the NVS all the same, and a load that fails shows nothing. What the callers of the store can see is
that of a cell with such writes, whose value is the record.

* `StoreCall`, `storeLog`: a run of calls of `ota_progress_save`, `ota_progress_load` and
  `ota_progress_clear`, and what their callers see.
* `StoreEvent.op`: what it says about the record.
* `store_traces`: the logs of the store are exactly those in which every load that succeeds gives a
  latest record.
-/

namespace BleOta

open Lib

/-! ## Runs -/

/-- A call, with the answers of the NVS. `outs` says that no pointer of the load is `NULL`. -/
inductive StoreCall where
  | save (io : NvsIo) (p : OtaProgress)
  | load (io : NvsIo) (outs : Bool) (p : OtaProgress)
  | clear (io : NvsIo)

/-- What the caller sees: the arguments and the result, and for a load what the pointers point to
before and after it. -/
inductive StoreEvent where
  | saved (p : OtaProgress) (err : EspErr)
  | loaded (outs : Bool) (p q : OtaProgress) (err : EspErr)
  | cleared (err : EspErr)
  deriving DecidableEq

/-- One call. -/
def storeStep : StoreCall → Nvs → StoreEvent × Nvs
  | .save io p, nvs =>
    let r := otaProgressSave io p nvs
    (.saved p r.1, r.2)
  | .load io outs p, nvs =>
    let r := otaProgressLoad io outs p nvs
    (.loaded outs p r.2 r.1, nvs)
  | .clear io, nvs =>
    let r := otaProgressClear io nvs
    (.cleared r.1, r.2)

/-- What is seen of the calls. -/
def storeLog : List StoreCall → Nvs → List StoreEvent
  | [], _ => []
  | c :: cs, nvs => (storeStep c nvs).1 :: storeLog cs (storeStep c nvs).2

/-- The NVS after the calls. -/
def storeNvs (cs : List StoreCall) (nvs : Nvs) : Nvs :=
  cs.foldl (fun nvs c => (storeStep c nvs).2) nvs

/-! ## The record as a cell -/

/-- What an event says about the record. -/
def StoreEvent.op : StoreEvent → Cell.Op (Option OtaProgress)
  | .saved p err => .write (some p.trunc) (err = espOk)
  | .loaded _ _ q err => if err = espOk then .read (some q) else .silent
  | .cleared err => .write none (err = espOk)

/-- A load without its pointers is refused, and one that fails leaves them as they were. -/
def StoreEvent.Fits : StoreEvent → Prop
  | .loaded outs p q err => (outs = false → err = espErrInvalidArg) ∧ (err ≠ espOk → q = p)
  | _ => True

variable {nvs nvs' : Nvs} {e : StoreEvent}

/-- A save that succeeds is in the NVS. -/
theorem otaProgressSave_ok {io : NvsIo} {p : OtaProgress}
    (h : otaProgressSave io p nvs = (espOk, nvs')) : nvs' = some p.blob := by
  have herr : (progressRw io true p nvs).1 = espOk := (Prod.mk.inj h).1
  have hnvs : (progressRw io true p nvs).2.2 = nvs' := (Prod.mk.inj h).2
  unfold progressRw at herr hnvs
  by_cases ho : io.opened = espOk
  · rw [if_neg (by simpa using ho), if_pos rfl] at herr hnvs
    dsimp only at herr hnvs
    rw [← hnvs, if_pos (.inl herr)]
  · rw [if_pos ho] at herr
    exact absurd herr ho

/-- After a clear that succeeds there is nothing. -/
theorem otaProgressClear_ok {io : NvsIo} (h : otaProgressClear io nvs = (espOk, nvs')) :
    nvs' = none := by
  have herr : (otaProgressClear io nvs).1 = espOk := by rw [h]
  have hnvs : (otaProgressClear io nvs).2 = nvs' := by rw [h]
  unfold otaProgressClear at herr hnvs
  by_cases ho : io.opened = espOk
  · rw [if_neg (by simpa using ho)] at herr hnvs
    dsimp only at herr hnvs
    rw [← hnvs, if_pos (.inl herr)]
  · rw [if_pos ho] at herr
    exact absurd herr ho

/-- A load that does not succeed gives what was there before. -/
theorem otaProgressLoad_failed {io : NvsIo} {outs : Bool} {p q : OtaProgress} {err : EspErr}
    (h : otaProgressLoad io outs p nvs = (err, q)) (herr : err ≠ espOk) : q = p := by
  unfold otaProgressLoad at h
  cases outs with
  | false => exact (Prod.mk.inj h).2.symm
  | true =>
    obtain ⟨h1, h2⟩ := Prod.mk.inj h
    subst h1 h2
    unfold progressRw at herr ⊢
    by_cases ho : io.opened = espOk
    · rw [if_neg (by simpa using ho), if_neg Bool.false_ne_true] at herr ⊢
      cases hget : nvsGetBlob io nvs with
      | error err => rfl
      | ok bytes =>
        rw [hget] at herr
        by_cases hb : bytes.length ≠ blobSize ∨ getU32 bytes 0 ≠ otaProgressMagic
        · simp only [if_pos hb]
        · simp only [if_neg hb] at herr
          exact absurd rfl herr
    · rw [if_pos ho]

/-! ## One call -/

theorem storeStep_fits (c : StoreCall) (nvs : Nvs) : (storeStep c nvs).1.Fits := by
  cases c with
  | save io p | clear io => trivial
  | load io outs p =>
    refine ⟨fun ho => ?_, fun herr => otaProgressLoad_failed rfl herr⟩
    subst ho
    rfl

/-- A call takes the record as its event says. -/
theorem storeStep_op (c : StoreCall) (nvs : Nvs) :
    Cell.Step (storeStep c nvs).1.op (record nvs) (record (storeStep c nvs).2) := by
  cases c with
  | save io p =>
    obtain ⟨⟨err, nvs'⟩, hr⟩ : ∃ r, otaProgressSave io p nvs = r := ⟨_, rfl⟩
    simp only [storeStep, hr, StoreEvent.op]
    by_cases herr : err = espOk
    · subst herr
      rw [otaProgressSave_ok hr, record_blob, decide_eq_true rfl]
      exact .acked
    · rw [decide_eq_false herr]
      rcases otaProgressSave_nvs hr with rfl | rfl
      · rw [record_blob]
        exact .made
      · exact .lost
  | load io outs p =>
    obtain ⟨⟨err, q⟩, hr⟩ : ∃ r, otaProgressLoad io outs p nvs = r := ⟨_, rfl⟩
    simp only [storeStep, hr, StoreEvent.op]
    by_cases herr : err = espOk
    · subst herr
      rw [if_pos rfl, otaProgressLoad_ok hr]
      exact .read
    · rw [if_neg herr]
      exact .silent
  | clear io =>
    obtain ⟨⟨err, nvs'⟩, hr⟩ : ∃ r, otaProgressClear io nvs = r := ⟨_, rfl⟩
    simp only [storeStep, hr, StoreEvent.op]
    by_cases herr : err = espOk
    · subst herr
      rw [otaProgressClear_ok hr, record_none, decide_eq_true rfl]
      exact .acked
    · rw [decide_eq_false herr]
      rcases otaProgressClear_nvs hr with rfl | rfl
      · exact .made
      · exact .lost

/-- The NVS commits with an error, and the blob is in it or not. -/
def NvsIo.commitFails (err : EspErr) (kept : Bool) : NvsIo :=
  { NvsIo.allOk with commit := err, kept := kept }

/-- The NVS does not open. -/
def NvsIo.openFails (err : EspErr) : NvsIo := { NvsIo.allOk with opened := err }

theorem otaProgressSave_commitFails {err : EspErr} (herr : err ≠ espOk) (kept : Bool)
    (p : OtaProgress) : otaProgressSave (.commitFails err kept) p nvs =
      (err, if kept then some p.blob else nvs) := by
  simp [otaProgressSave, progressRw, NvsIo.commitFails, NvsIo.allOk, herr]

theorem otaProgressClear_commitFails {err : EspErr} (herr : err ≠ espOk) (kept : Bool) :
    otaProgressClear (.commitFails err kept) nvs = (err, if kept then none else nvs) := by
  cases nvs <;> simp [otaProgressClear, nvsEraseKey, NvsIo.commitFails, NvsIo.allOk, herr]

theorem otaProgressSave_allOk (p : OtaProgress) :
    otaProgressSave .allOk p nvs = (espOk, some p.blob) := by
  simp [otaProgressSave, progressRw, NvsIo.allOk]

theorem otaProgressClear_allOk : otaProgressClear .allOk nvs = (espOk, none) := by
  cases nvs <;> simp [otaProgressClear, nvsEraseKey, NvsIo.allOk]

theorem storeStep_of_save {p : OtaProgress} {err : EspErr} {r : Option OtaProgress}
    (h : Cell.Step (StoreEvent.saved p err).op (record nvs) r) :
    ∃ io, (storeStep (.save io p) nvs).1 = .saved p err ∧
      record (storeStep (.save io p) nvs).2 = r := by
  by_cases herr : err = espOk
  · subst herr
    refine ⟨.allOk, by simp [storeStep, otaProgressSave_allOk], ?_⟩
    rw [StoreEvent.op, decide_eq_true rfl] at h
    cases h
    simp [storeStep, otaProgressSave_allOk, record_blob]
  · rw [StoreEvent.op, decide_eq_false herr] at h
    have hsaved (kept : Bool) : storeStep (.save (.commitFails err kept) p) nvs =
        (.saved p err, if kept then some p.blob else nvs) := by
      simp [storeStep, otaProgressSave_commitFails herr]
    generalize ha : record nvs = a at h
    cases h with
    | made =>
      refine ⟨.commitFails err true, ?_⟩
      rw [hsaved]
      exact ⟨rfl, record_blob p⟩
    | lost =>
      refine ⟨.commitFails err false, ?_⟩
      rw [hsaved]
      exact ⟨rfl, ha⟩

theorem storeStep_of_load {outs : Bool} {p q : OtaProgress} {err : EspErr} {r : Option OtaProgress}
    (he : (StoreEvent.loaded outs p q err).Fits)
    (h : Cell.Step (StoreEvent.loaded outs p q err).op (record nvs) r) :
    ∃ io, (storeStep (.load io outs p) nvs).1 = .loaded outs p q err ∧
      record (storeStep (.load io outs p) nvs).2 = r := by
  obtain ⟨harg, hkeep⟩ := he
  by_cases herr : err = espOk
  · subst herr
    rw [StoreEvent.op, if_pos rfl] at h
    generalize ha : record nvs = a at h
    cases h
    have houts : outs = true := by
      by_contra ho
      exact absurd (harg (by simpa using ho)) (by decide)
    subst houts
    refine ⟨.allOk, ?_, ha⟩
    simp only [storeStep, otaProgressLoad_record p ha]
  · rw [StoreEvent.op, if_neg herr] at h
    generalize ha : record nvs = a at h
    cases h
    obtain rfl := hkeep herr
    refine ⟨.openFails err, ?_, ha⟩
    cases outs with
    | false => simp [storeStep, otaProgressLoad, harg rfl]
    | true => simp [storeStep, otaProgressLoad, progressRw, NvsIo.openFails, NvsIo.allOk, herr]

theorem storeStep_of_clear {err : EspErr} {r : Option OtaProgress}
    (h : Cell.Step (StoreEvent.cleared err).op (record nvs) r) :
    ∃ io, (storeStep (.clear io) nvs).1 = .cleared err ∧
      record (storeStep (.clear io) nvs).2 = r := by
  by_cases herr : err = espOk
  · subst herr
    refine ⟨.allOk, by simp [storeStep, otaProgressClear_allOk], ?_⟩
    rw [StoreEvent.op, decide_eq_true rfl] at h
    cases h
    simp [storeStep, otaProgressClear_allOk]
  · rw [StoreEvent.op, decide_eq_false herr] at h
    have hcleared (kept : Bool) : storeStep (.clear (.commitFails err kept)) nvs =
        (.cleared err, if kept then none else nvs) := by
      simp [storeStep, otaProgressClear_commitFails herr]
    generalize ha : record nvs = a at h
    cases h with
    | made =>
      refine ⟨.commitFails err true, ?_⟩
      rw [hcleared]
      exact ⟨rfl, record_none⟩
    | lost =>
      refine ⟨.commitFails err false, ?_⟩
      rw [hcleared]
      exact ⟨rfl, ha⟩

/-- The NVS can answer so that the caller sees the event and the record becomes `r`. -/
theorem storeStep_of_op {r : Option OtaProgress} (he : e.Fits)
    (h : Cell.Step e.op (record nvs) r) :
    ∃ c, (storeStep c nvs).1 = e ∧ record (storeStep c nvs).2 = r := by
  cases e with
  | saved p err => exact (storeStep_of_save h).imp' (.save · p) fun _ hc => hc
  | loaded outs p q err => exact (storeStep_of_load he h).imp' (.load · outs p) fun _ hc => hc
  | cleared err => exact (storeStep_of_clear h).imp' .clear fun _ hc => hc

/-! ## All runs -/

theorem storeNvs_snoc (cs : List StoreCall) (c : StoreCall) :
    storeNvs (cs ++ [c]) nvs = (storeStep c (storeNvs cs nvs)).2 := by
  simp [storeNvs]

theorem storeLog_snoc (cs : List StoreCall) (c : StoreCall) :
    storeLog (cs ++ [c]) nvs = storeLog cs nvs ++ [(storeStep c (storeNvs cs nvs)).1] := by
  induction cs generalizing nvs with
  | nil => rfl
  | cons c' cs ih =>
    rw [List.cons_append, storeLog, ih]
    rfl

/-- The calls of a run are the operations of a trace. -/
theorem storeLog_trace (cs : List StoreCall) (nvs : Nvs) :
    (∀ e ∈ storeLog cs nvs, e.Fits) ∧
      Cell.Trace (record nvs) ((storeLog cs nvs).map StoreEvent.op)
        (record (storeNvs cs nvs)) := by
  induction cs using List.reverseRecOn with
  | nil => exact ⟨by simp [storeLog], .nil⟩
  | append_singleton cs c ih =>
    obtain ⟨hfits, htrace⟩ := ih
    rw [storeLog_snoc, storeNvs_snoc, List.map_append, List.map_singleton]
    refine ⟨fun e he => ?_, htrace.snoc (storeStep_op c _)⟩
    rcases List.mem_append.mp he with he | he
    · exact hfits e he
    · obtain rfl := List.mem_singleton.mp he
      exact storeStep_fits c _

/-- The operations of a trace are the calls of a run. -/
theorem exists_storeLog {log : List StoreEvent} {r : Option OtaProgress}
    (hfits : ∀ e ∈ log, e.Fits) (h : Cell.Trace (record nvs) (log.map StoreEvent.op) r) :
    ∃ cs, storeLog cs nvs = log ∧ record (storeNvs cs nvs) = r := by
  induction log using List.reverseRecOn generalizing r with
  | nil =>
    generalize hops : List.map StoreEvent.op [] = ops at h
    cases h with
    | nil => exact ⟨[], rfl, rfl⟩
    | snoc => simp at hops
  | append_singleton log e ih =>
    rw [List.map_append, List.map_singleton] at h
    obtain ⟨b, ht, hst⟩ := Cell.trace_snoc.mp h
    obtain ⟨cs, hlog, rfl⟩ := ih (fun e he => hfits e (by simp [he])) ht
    obtain ⟨c, he, hr⟩ := storeStep_of_op (hfits e (by simp)) hst
    refine ⟨cs ++ [c], ?_, ?_⟩
    · rw [storeLog_snoc, hlog, he]
    · rw [storeNvs_snoc, hr]

/-- The reads of the cell are the loads that succeed. -/
theorem StoreEvent.op_eq_read {x : Option OtaProgress} :
    e.op = .read x ↔ ∃ outs p q, e = .loaded outs p q espOk ∧ x = some q := by
  cases e with
  | saved | cleared => simp [StoreEvent.op]
  | loaded outs p q err =>
    by_cases herr : err = espOk
    · subst herr
      simp [StoreEvent.op, eq_comm]
    · simp [StoreEvent.op, herr]

theorem readsLatest_map {a : Option OtaProgress} {log : List StoreEvent} :
    Cell.ReadsLatest a (log.map StoreEvent.op) ↔
      ∀ pre outs p q post, log = pre ++ .loaded outs p q espOk :: post →
        Cell.Latest a (pre.map StoreEvent.op) (some q) := by
  constructor
  · intro h pre outs p q post hlog
    refine h _ _ (post.map StoreEvent.op) ?_
    simp [hlog, StoreEvent.op]
  · intro h pre x post hops
    obtain ⟨pre', rest, rfl, rfl, hrest⟩ := List.map_eq_append_iff.mp hops
    obtain ⟨e, post', rfl, he, rfl⟩ := List.map_eq_cons_iff.mp hrest
    obtain ⟨outs, p, q, rfl, rfl⟩ := StoreEvent.op_eq_read.mp he
    exact h pre' outs p q post' rfl

/-- **The progress store** shows its callers exactly the logs in which every load that succeeds
gives a latest record: of the last save or clear that succeeded (or load, or the one at the
beginning), or of a save that failed after it. And each of them may be the one that is there at the
end. -/
theorem store_traces (nvs : Nvs) (log : List StoreEvent) (r : Option OtaProgress) :
    (∃ cs, storeLog cs nvs = log ∧ record (storeNvs cs nvs) = r) ↔
      (∀ e ∈ log, e.Fits) ∧
      (∀ pre outs p q post, log = pre ++ .loaded outs p q espOk :: post →
        Cell.Latest (record nvs) (pre.map StoreEvent.op) (some q)) ∧
      Cell.Latest (record nvs) (log.map StoreEvent.op) r := by
  rw [← readsLatest_map, ← Cell.trace_iff]
  constructor
  · rintro ⟨cs, rfl, rfl⟩
    exact storeLog_trace cs nvs
  · rintro ⟨hfits, htrace⟩
    exact exists_storeLog hfits htrace

end BleOta
