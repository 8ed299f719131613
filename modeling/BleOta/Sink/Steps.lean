import BleOta.Sink.Defs

/-!
# What a critical section of the sink can do

`Sect B o p s out`: the section of the call `o` at the place `p` (`none`: its first section) takes
the state `s` to `out`. There is one case for each way through the code, with the guard of that
way. The invariants of the sink split on these cases (`enter_sect`, `resume_sect`) and do not
unfold the code.

* `sectorLoop_spec`: the sector loop changes the counters only; `sectorLoop_done`: it ends before
  its fuel does.
* `settleAbort_cases`: the deferred abort.
* `Sect.otaWrite`, `Sect.otaBegin`: the sections that write and that begin.
-/

namespace BleOta

variable {α : Type}

/-! ## The sector loop -/

/-- An event of the sector loop. -/
def Ev.IsProgress : Ev α → Prop
  | .fire (.progress _) => True
  | .progressSave .. => True
  | _ => False

/-- The loop keeps all of the sink but `sectorsDone` and `progressDirty`, emits progress only, and
returns `ret` or `OTA_SINK_ERR_NVS`. -/
theorem sectorLoop_spec (save : Nat → EspErr) (n : Nat) (s : Sink) (ret : OtaSinkErr) :
    (∃ d p, (sectorLoop (α := α) save n s ret).1 =
      { s with sectorsDone := d, progressDirty := p }) ∧
      (∀ e ∈ (sectorLoop (α := α) save n s ret).2.1, e.IsProgress) ∧
      ((sectorLoop (α := α) save n s ret).2.2 = ret ∨
        (sectorLoop (α := α) save n s ret).2.2 = .nvs) := by
  induction n generalizing s ret with
  | zero => exact ⟨⟨s.sectorsDone, s.progressDirty, rfl⟩, by simp [sectorLoop], .inl rfl⟩
  | succ n ih =>
    rw [sectorLoop]
    split
    · obtain ⟨⟨d, p, h1⟩, h2, h3⟩ := ih (sectorStep (α := α) save s).1
        (if (sectorStep (α := α) save s).2.2 = .nvs then .nvs else ret)
      refine ⟨⟨d, p, ?_⟩, fun e he => ?_, ?_⟩
      · rw [h1]; rfl
      · rcases List.mem_append.mp he with he | he
        · simp only [sectorStep, List.mem_cons, List.not_mem_nil, or_false] at he
          rcases he with rfl | rfl <;> trivial
        · exact h2 e he
      · rcases h3 with h3 | h3
        · rw [h3]
          split
          · exact .inr rfl
          · exact .inl rfl
        · exact .inr h3
    · exact ⟨⟨s.sectorsDone, s.progressDirty, rfl⟩, by simp, .inl rfl⟩

theorem sectorStep_rest (save : Nat → EspErr) {s : Sink} (h : otaSectorSize ≤ sectorRest s) :
    sectorRest (sectorStep (α := α) save s).1 = sectorRest s - otaSectorSize := by
  simp only [sectorRest, sectorStep, u32, otaSectorSize] at h ⊢
  omega

/-- With the fuel of `otaSinkWriteAccount` the guard of the loop is false at its end. -/
theorem sectorLoop_done (save : Nat → EspErr) {n : Nat} {s : Sink} (ret : OtaSinkErr)
    (h : sectorRest s / otaSectorSize ≤ n) :
    sectorRest (sectorLoop (α := α) save n s ret).1 < otaSectorSize := by
  induction n generalizing s ret with
  | zero =>
    have hz : sectorRest s / otaSectorSize = 0 := Nat.le_zero.mp h
    simp only [otaSectorSize] at hz
    simp only [sectorLoop, otaSectorSize]
    omega
  | succ n ih =>
    rw [sectorLoop]
    split
    · next hle =>
      apply ih
      rw [sectorStep_rest save hle]
      simp only [otaSectorSize] at h hle ⊢
      omega
    · next hlt => exact Nat.lt_of_not_le hlt

/-- The bytes past the counted sectors, if nothing wraps. -/
theorem sectorRest_eq {s : Sink} (hb : s.bytesWritten < 2 ^ 32)
    (hd : s.sectorsDone * otaSectorSize ≤ s.bytesWritten) :
    sectorRest s = s.bytesWritten - s.sectorsDone * otaSectorSize := by
  unfold sectorRest
  generalize s.sectorsDone * otaSectorSize = d at hd
  simp only [u32]
  omega

/-- A full sector is counted without a wrap, and saved. -/
theorem sectorStep_eq (save : Nat → EspErr) {s : Sink} (hb : s.bytesWritten < 2 ^ 32)
    (hd : s.sectorsDone * otaSectorSize ≤ s.bytesWritten) (hr : otaSectorSize ≤ sectorRest s) :
    (s.sectorsDone + 1) * otaSectorSize ≤ s.bytesWritten ∧ ∃ label,
      sectorStep (α := α) save s =
        ({ s with
            sectorsDone := s.sectorsDone + 1,
            progressDirty := save (s.sectorsDone + 1) ≠ espOk },
          [.fire (.progress
              ⟨s.epoch, label, s.imageSize, s.bytesWritten, s.sectorsDone + 1, false⟩),
            .progressSave s.imageSize ((s.sectorsDone + 1) * otaSectorSize) (s.sectorsDone + 1)
              (save (s.sectorsDone + 1))],
          if save (s.sectorsDone + 1) ≠ espOk then .nvs else .ok) := by
  have hlt : (s.sectorsDone + 1) * otaSectorSize ≤ s.bytesWritten := by
    rw [sectorRest_eq hb hd] at hr
    rw [Nat.add_mul, Nat.one_mul]
    generalize s.sectorsDone * otaSectorSize = d at hd hr
    omega
  have hs : u32 (s.sectorsDone + 1) = s.sectorsDone + 1 := by
    have hle : s.sectorsDone + 1 ≤ (s.sectorsDone + 1) * otaSectorSize :=
      Nat.le_mul_of_pos_right _ (by decide)
    exact Nat.mod_eq_of_lt (by omega)
  have ho : u32 ((s.sectorsDone + 1) * otaSectorSize) = (s.sectorsDone + 1) * otaSectorSize :=
    Nat.mod_eq_of_lt (by omega)
  exact ⟨hlt, _, by rw [sectorStep, hs, ho]⟩

/-! ## The deferred abort -/

/-- The sink after the deferred abort of the handle `s.handle`. -/
def settled (s : Sink) : Sink := sinkToIdleLocked { s with handle := 0 }

/-- With no abort pending nothing happens; else the handle, if there is one, is aborted. -/
theorem settleAbort_cases (s : Sink) :
    (s.state ≠ .abortPending ∧ settleAbort s = (s, none)) ∨
    (s.state = .abortPending ∧ s.handle ≠ 0 ∧ settleAbort s = (settled s, some s.handle)) ∨
    (s.state = .abortPending ∧ s.handle = 0 ∧ settleAbort s = (sinkToIdleLocked s, none)) := by
  unfold settleAbort
  by_cases hst : s.state = .abortPending
  · by_cases hh : s.handle = 0
    · exact .inr (.inr ⟨hst, hh, by simp [hst, hh]⟩)
    · exact .inr (.inl ⟨hst, hh, by simp [hst, hh, settled]⟩)
  · exact .inl ⟨hst, by simp [hst]⟩

theorem settleEvents_eq {s k : Sink} {h : Option Nat} (he : settleAbort s = (k, h)) :
    (settleEvents s : List (Ev α)) = h.toList.map .otaAbort := by
  rw [settleEvents, he]

/-! ## The ways through the code -/

/-- A section of the call `o` at `p` (module doc). -/
inductive Sect (B : Board) (o : SinkCall α) : Option (Pc α) → SinkSt → Out α → Prop
  /-- The arguments, the session or the state are refused. -/
  | refused {s err} : err ≠ .ok → err ≠ .nvs → Sect B o none s (s, [], .inr (.ret err none))
  /-- An open that does not reach `esp_ota_begin`. -/
  | notOpened {cfg s err} : o.1 = .sessionOpen (some cfg) → err ≠ .ok →
      Sect B o none s (⟨(settleAbort s.sink).1, s.handles⟩,
        settleEvents s.sink, .inr (.ret err none))
  | beginFails {cfg s target} : o.1 = .sessionOpen (some cfg) →
      (settleAbort s.sink).1.sessionLive = false →
      B.running.bind B.nextUpdate = some target → o.2.begin ≠ espOk →
      Sect B o none s
        (⟨{ (settleAbort s.sink).1 with handle := 0 }, s.handles⟩,
          settleEvents s.sink ++
            [.otaBegin target cfg.imageSize 0 o.2.begin, sinkFireError .beginFail o.2.begin],
          .inr (.ret .beginFail none))
  | begins {cfg s target} : o.1 = .sessionOpen (some cfg) →
      (settleAbort s.sink).1.sessionLive = false →
      B.running.bind B.nextUpdate = some target → cfg.imageSize ≠ 0 →
      cfg.imageSize ≤ target.size → o.2.begin = espOk →
      Sect B o none s
        (⟨registerSession target cfg.imageSize (s.handles + 1) (settleAbort s.sink).1,
            s.handles + 1⟩,
          settleEvents s.sink ++
            [.otaBegin target cfg.imageSize (s.handles + 1) espOk,
              .fire (.sessionStart ⟨(settleAbort s.sink).1.nextEpoch, target.label,
                cfg.imageSize, 0, 0, cfg.resume⟩)],
          .inr (.ret .ok (some (settleAbort s.sink).1.nextEpoch)))
  | writes {e data s} : o.1 = .write e (some data) → data ≠ [] →
      s.sink.sessionLive = true → e = s.sink.epoch → s.sink.state = .writing →
      Sect B o none s (s, [], .inl (.writeFlash e s.sink.handle data))
  | flashFails {e h data s} : o.2.write ≠ espOk →
      Sect B o (some (.writeFlash e h data)) s
        (s, [.otaWrite h data o.2.write, sinkFireError .writeFail o.2.write],
          .inr (.ret .writeFail none))
  | flashed {e h data s} : o.2.write = espOk →
      Sect B o (some (.writeFlash e h data)) s
        (s, [.otaWrite h data espOk], .inl (.writeAccount e data.length))
  | staleAfter {e len s} :
      (s.sink.sessionLive = true → e = s.sink.epoch → s.sink.state ≠ .writing) →
      Sect B o (some (.writeAccount e len)) s (s, [], .inr (.ret .sessionStale none))
  | accounts {e len s es err d p} : s.sink.sessionLive = true → e = s.sink.epoch →
      s.sink.state = .writing → (∀ ev ∈ es, ev.IsProgress) → err = .ok ∨ err = .nvs →
      Sect B o (some (.writeAccount e len)) s
        (⟨{ s.sink with
            bytesWritten := u32 (s.sink.bytesWritten + u32 len), sectorsDone := d,
            progressDirty := p }, s.handles⟩, es, .inr (.ret err none))
  | finishes {e s} : o.1 = .finish e → s.sink.sessionLive = true → e = s.sink.epoch →
      s.sink.state = .writing →
      Sect B o none s
        (⟨{ s.sink with handle := 0 }, s.handles⟩, [], .inl (.finishEnd s.sink.handle))
  | ended {h s} : Sect B o (some (.finishEnd h)) s
      (s, [.otaEnd h o.2.end], .inl (.finishLock h o.2.end))
  | endFailed {h ier s} : ier ≠ espOk → Sect B o (some (.finishLock h ier)) s
      (⟨sinkToIdleLocked s.sink, s.handles⟩, [.otaAbort h, sinkFireError .validateFail ier],
        .inr (.ret .validateFail none))
  | validated {h s} : Sect B o (some (.finishLock h espOk)) s
      (⟨{ s.sink with state := .validated }, s.handles⟩, [.fire .validated], .inr (.ret .ok none))
  | activates {e reboot s} : o.1 = .activate e reboot → s.sink.sessionLive = true →
      e = s.sink.epoch → s.sink.state = .validated →
      Sect B o none s (⟨{ s.sink with state := .activated }, s.handles⟩, [],
        .inl (.activateBoot s.sink.target reboot))
  | bootFailed {t reboot s} : o.2.setBoot ≠ espOk → Sect B o (some (.activateBoot t reboot)) s
      (s, [.setBoot t o.2.setBoot], .inl (.activateUndo o.2.setBoot))
  | booted {t reboot s} : o.2.setBoot = espOk → Sect B o (some (.activateBoot t reboot)) s
      (s, [.setBoot t espOk], .inl (.activateClear reboot))
  | undone {ier s} : Sect B o (some (.activateUndo ier)) s
      (⟨{ s.sink with state := .validated }, s.handles⟩, [sinkFireError .activateFail ier],
        .inr (.ret .activateFail none))
  | cleared {reboot s} : Sect B o (some (.activateClear reboot)) s
      (s, [.progressClear o.2.clear], .inl (.activateClose reboot))
  | closed {reboot s} : Sect B o (some (.activateClose reboot)) s
      (⟨{ s.sink with sessionLive := false }, s.handles⟩, [.fire .activated],
        .inr (if reboot then .restart else .ret .ok none))
  | aborts {e s} : o.1 = .sessionAbort e → s.sink.sessionLive = true → e = s.sink.epoch →
      s.sink.state = .writing → s.sink.handle ≠ 0 →
      Sect B o none s (⟨settled s.sink, s.handles⟩, [.otaAbort s.sink.handle],
        .inr (.ret .ok none))
  | drops {e s} : o.1 = .sessionAbort e → s.sink.sessionLive = true → e = s.sink.epoch →
      (s.sink.state = .writing → s.sink.handle = 0) →
      Sect B o none s (⟨sinkToIdleLocked s.sink, s.handles⟩, [], .inr (.ret .ok none))

variable {B : Board}

theorem sinkStale_eq_false {e : Nat} {s : Sink} :
    sinkStale e s = false ↔ s.sessionLive = true ∧ e = s.epoch := by
  simp [sinkStale]

theorem sinkEpochIsCurrentLocked_iff {e : Nat} {s : Sink} :
    sinkEpochIsCurrentLocked e s = true ↔
      s.sessionLive = true ∧ e = s.epoch ∧ s.state = .writing := by
  simp [sinkEpochIsCurrentLocked, and_assoc]

theorem open_sect (cfg : Option OtaSinkSessionCfg) (idf : Idf) (s : SinkSt) :
    Sect B (α := α) (.sessionOpen cfg, idf) none s (otaSinkSessionOpen B cfg idf s) := by
  unfold otaSinkSessionOpen
  cases cfg with
  | none => exact .refused (by decide) (by decide)
  | some cfg =>
    dsimp only
    split
    · exact .refused (by decide) (by decide)
    next hsize =>
    split
    · exact .notOpened rfl (by decide)
    next hlive =>
    split
    · exact .notOpened rfl (by decide)
    next running hrun =>
    split
    · exact .notOpened rfl (by decide)
    next target htgt =>
    split
    · exact .notOpened rfl (by decide)
    next hfit =>
    have hl : (settleAbort s.sink).1.sessionLive = false := by simpa using hlive
    have ht : B.running.bind B.nextUpdate = some target := by simp [hrun, htgt]
    unfold beginSession
    split
    · next hb => exact .beginFails rfl hl ht hb
    next hb => exact .begins rfl hl ht hsize (Nat.le_of_not_lt hfit) (not_not.mp hb)

theorem write_sect (e : Nat) (data : Option (List α)) (idf : Idf) (s : SinkSt) :
    Sect B (.write e data, idf) none s (otaSinkWrite e data s) := by
  unfold otaSinkWrite
  cases data with
  | none => exact .refused (by decide) (by decide)
  | some data =>
    dsimp only
    split
    · exact .refused (by decide) (by decide)
    next hlen =>
    split
    · next hcur =>
      obtain ⟨hl, he, hw⟩ := sinkEpochIsCurrentLocked_iff.mp hcur
      exact .writes rfl (by rintro rfl; exact hlen rfl) hl he hw
    · exact .refused (by decide) (by decide)

/-- **The first section** of every call is one of the ways. -/
theorem enter_sect (o : SinkCall α) (s : SinkSt) :
    Sect B o none s (otaSinkEnter B o.1 o.2 s) := by
  obtain ⟨op, idf⟩ := o
  cases op with
  | sessionOpen cfg => exact open_sect cfg idf s
  | write e data => exact write_sect e data idf s
  | finish e =>
    simp only [otaSinkEnter, otaSinkFinish]
    split
    · exact .refused (by decide) (by decide)
    next hst =>
    obtain ⟨hl, he⟩ := sinkStale_eq_false.mp (Bool.not_eq_true _ ▸ hst)
    split
    · exact .refused (by decide) (by decide)
    next hw => exact .finishes rfl hl he (not_not.mp hw)
  | activate e reboot =>
    simp only [otaSinkEnter, otaSinkActivate]
    split
    · exact .refused (by decide) (by decide)
    next hst =>
    obtain ⟨hl, he⟩ := sinkStale_eq_false.mp (Bool.not_eq_true _ ▸ hst)
    split
    · exact .refused (by decide) (by decide)
    next hw => exact .activates rfl hl he (not_not.mp hw)
  | sessionAbort e =>
    simp only [otaSinkEnter, otaSinkSessionAbort]
    split
    · exact .refused (by decide) (by decide)
    next hst =>
    obtain ⟨hl, he⟩ := sinkStale_eq_false.mp (Bool.not_eq_true _ ▸ hst)
    split
    · next hw => exact .aborts rfl hl he hw.1 hw.2
    next hw => exact .drops rfl hl he (fun h => by_contra fun hh => hw ⟨h, hh⟩)

theorem account_sect (o : SinkCall α) (e len : Nat) (s : SinkSt) :
    Sect B o (some (.writeAccount e len)) s (otaSinkWriteAccount e len o.2 s) := by
  unfold otaSinkWriteAccount
  split
  · next hcur =>
    obtain ⟨hl, he, hw⟩ := sinkEpochIsCurrentLocked_iff.mp hcur
    obtain ⟨⟨d, p, h1⟩, h2, h3⟩ := sectorLoop_spec (α := α) o.2.save
      (sectorRest { s.sink with bytesWritten := u32 (s.sink.bytesWritten + u32 len) } /
        otaSectorSize)
      { s.sink with bytesWritten := u32 (s.sink.bytesWritten + u32 len) } .ok
    dsimp only
    rw [h1]
    exact .accounts hl he hw h2 h3
  · next hcur =>
    exact .staleAfter fun hl he hw => hcur (sinkEpochIsCurrentLocked_iff.mpr ⟨hl, he, hw⟩)

/-- **Every later section** of a call is one of the ways. -/
theorem resume_sect (o : SinkCall α) (pc : Pc α) (s : SinkSt) :
    Sect B o (some pc) s (otaSinkResume o.2 pc s) := by
  cases pc with
  | writeFlash e h data =>
    simp only [otaSinkResume]
    split
    · next hw => exact .flashFails hw
    next hw => exact .flashed (not_not.mp hw)
  | writeAccount e len => exact account_sect o e len s
  | finishEnd h => exact .ended
  | finishLock h ier =>
    simp only [otaSinkResume, otaSinkFinishLock]
    split
    · next hi => exact .endFailed hi
    next hi => rw [not_not.mp hi]; exact .validated
  | activateBoot t reboot =>
    simp only [otaSinkResume]
    split
    · next hi => exact .bootFailed hi
    next hi => rw [not_not.mp hi]; exact .booted (not_not.mp hi)
  | activateUndo ier => exact .undone
  | activateClear reboot => exact .cleared
  | activateClose reboot => exact .closed

/-! ## Calls that are not refused -/

/-- A write of the live session. -/
theorem enter_write (idf : Idf) {e : Nat} {data : List α} {s : SinkSt} (hd : data ≠ [])
    (hl : s.sink.sessionLive = true) (he : e = s.sink.epoch) (hw : s.sink.state = .writing) :
    otaSinkEnter B (.write e (some data)) idf s =
      (s, [], .inl (.writeFlash e s.sink.handle data)) := by
  have hlen : data.length ≠ 0 := fun h => hd (List.length_eq_zero_iff.mp h)
  have hcur : sinkEpochIsCurrentLocked e s.sink = true :=
    sinkEpochIsCurrentLocked_iff.mpr ⟨hl, he, hw⟩
  simp [otaSinkEnter, otaSinkWrite, hlen, hcur]

/-- A finish of the live session. -/
theorem enter_finish (idf : Idf) {e : Nat} {s : SinkSt} (hl : s.sink.sessionLive = true)
    (he : e = s.sink.epoch) (hw : s.sink.state = .writing) :
    otaSinkEnter B (α := α) (.finish e) idf s =
      ({ s with sink := { s.sink with handle := 0 } }, [], .inl (.finishEnd s.sink.handle)) := by
  simp [otaSinkEnter, otaSinkFinish, sinkStale_eq_false.mpr ⟨hl, he⟩, hw]

/-- An activate of the live, validated session. -/
theorem enter_activate (idf : Idf) {e : Nat} {reboot : Bool} {s : SinkSt}
    (hl : s.sink.sessionLive = true) (he : e = s.sink.epoch) (hv : s.sink.state = .validated) :
    otaSinkEnter B (α := α) (.activate e reboot) idf s =
      ({ s with sink := { s.sink with state := .activated } }, [],
        .inl (.activateBoot s.sink.target reboot)) := by
  simp [otaSinkEnter, otaSinkActivate, sinkStale_eq_false.mpr ⟨hl, he⟩, hv]

/-- An abort of the live session. -/
theorem enter_abort (idf : Idf) {e : Nat} {s : SinkSt} (hl : s.sink.sessionLive = true)
    (he : e = s.sink.epoch) (hw : s.sink.state = .writing) (hh : s.sink.handle ≠ 0) :
    otaSinkEnter B (α := α) (.sessionAbort e) idf s =
      (⟨settled s.sink, s.handles⟩, [.otaAbort s.sink.handle], .inr (.ret .ok none)) := by
  simp [otaSinkEnter, otaSinkSessionAbort, sinkStale_eq_false.mpr ⟨hl, he⟩, hw, hh, settled]

/-- An open finds no session if none is live. -/
theorem open_not_busy (cfg : Option OtaSinkSessionCfg) (idf : Idf) {s : SinkSt}
    (hl : (settleAbort s.sink).1.sessionLive = false) (e : Option Nat) :
    (otaSinkEnter B (α := α) (.sessionOpen cfg) idf s).2.2 ≠ .inr (.ret .busy e) := by
  simp only [otaSinkEnter, otaSinkSessionOpen, hl, beginSession]
  cases cfg with
  | none => simp
  | some cfg =>
    dsimp only
    repeat' split
    all_goals simp_all

/-- An open without a live session, for a length that fits. -/
theorem enter_open {idf : Idf} (cfg : OtaSinkSessionCfg) {s : SinkSt} {target : Partition}
    (h0 : cfg.imageSize ≠ 0) (hl : (settleAbort s.sink).1.sessionLive = false)
    (ht : B.running.bind B.nextUpdate = some target) (hf : cfg.imageSize ≤ target.size)
    (hb : idf.begin = espOk) :
    otaSinkEnter B (α := α) (.sessionOpen (some cfg)) idf s =
      (⟨registerSession target cfg.imageSize (s.handles + 1) (settleAbort s.sink).1,
          s.handles + 1⟩,
        settleEvents s.sink ++
          [.otaBegin target cfg.imageSize (s.handles + 1) espOk,
            .fire (.sessionStart ⟨(settleAbort s.sink).1.nextEpoch, target.label,
              cfg.imageSize, 0, 0, cfg.resume⟩)],
        .inr (.ret .ok (some (settleAbort s.sink).1.nextEpoch))) := by
  obtain ⟨running, hr, hn⟩ := Option.bind_eq_some_iff.mp ht
  simp [otaSinkEnter, otaSinkSessionOpen, h0, hl, hr, hn, Nat.not_lt.mpr hf, beginSession, hb,
    registerSession]

/-! ## Events of a section -/

theorem settleEvents_mem {s : Sink} {e : Ev α} (h : e ∈ settleEvents s) :
    e = .otaAbort s.handle := by
  rcases settleAbort_cases s with ⟨-, he⟩ | ⟨-, -, he⟩ | ⟨-, -, he⟩
  · simp [settleEvents, he] at h
  · simpa [settleEvents, he] using h
  · simp [settleEvents, he] at h

/-- Only `ota_sink_write` at `esp_ota_write` writes. -/
theorem Sect.otaWrite {o : SinkCall α} {p : Option (Pc α)} {s : SinkSt} {out : Out α} {h : Nat}
    {data : List α} {err : EspErr} (hs : Sect B o p s out) (hm : .otaWrite h data err ∈ out.2.1) :
    (∃ e, p = some (.writeFlash e h data)) ∧ err = o.2.write ∧ out.1 = s := by
  cases hs with
  | notOpened => exact absurd (settleEvents_mem hm) (by simp)
  | beginFails | begins =>
    rcases List.mem_append.mp hm with hm | hm
    · exact absurd (settleEvents_mem hm) (by simp)
    · simp [sinkFireError] at hm
  | accounts _ _ _ hp => exact (hp _ hm).elim
  | flashFails =>
    simp [sinkFireError] at hm
    obtain ⟨rfl, rfl, rfl⟩ := hm
    exact ⟨⟨_, rfl⟩, rfl, rfl⟩
  | flashed hok =>
    simp at hm
    obtain ⟨rfl, rfl, rfl⟩ := hm
    exact ⟨⟨_, rfl⟩, hok.symm, rfl⟩
  | refused | writes | staleAfter | finishes | ended | endFailed | validated | activates
    | bootFailed | booted | undone | cleared | closed | aborts | drops => simp [sinkFireError] at hm

/-- Only `ota_sink_session_open` begins, with a new handle, when no session is live. -/
theorem Sect.otaBegin {o : SinkCall α} {p : Option (Pc α)} {s : SinkSt} {out : Out α} {h n : Nat}
    {t : Partition} (hs : Sect B o p s out) (hm : .otaBegin t n h espOk ∈ out.2.1) :
    (∃ cfg, o.1 = .sessionOpen (some cfg) ∧ n = cfg.imageSize) ∧ p = none ∧
      (settleAbort s.sink).1.sessionLive = false ∧ h = s.handles + 1 ∧ out.1.handles = h ∧
      out.1.sink.sessionLive = true ∧
      ∃ e, out.2.1 = settleEvents s.sink ++ [.otaBegin t n h espOk, .fire e] := by
  cases hs with
  | notOpened => exact absurd (settleEvents_mem hm) (by simp)
  | begins ho hl =>
    rcases List.mem_append.mp hm with hm | hm
    · exact absurd (settleEvents_mem hm) (by simp)
    · simp only [List.mem_cons, Ev.otaBegin.injEq, reduceCtorEq, List.not_mem_nil, or_false] at hm
      obtain ⟨rfl, rfl, rfl, -⟩ := hm
      exact ⟨⟨_, ho, rfl⟩, rfl, hl, rfl, rfl, rfl, _, rfl⟩
  | beginFails _ _ _ hb =>
    rcases List.mem_append.mp hm with hm | hm
    · exact absurd (settleEvents_mem hm) (by simp)
    · simp only [List.mem_cons, Ev.otaBegin.injEq, sinkFireError, reduceCtorEq, List.not_mem_nil,
        or_false] at hm
      exact absurd hm.2.2.2.symm hb
  | accounts _ _ _ hp => exact (hp _ hm).elim
  | refused | writes | flashFails | flashed | staleAfter | finishes | ended | endFailed | validated
    | activates | bootFailed | booted | undone | cleared | closed | aborts | drops =>
    simp [sinkFireError] at hm

/-- `ota_sink_write` comes to `esp_ota_write` in a live session only. -/
theorem Sect.writeFlash {o : SinkCall α} {p : Option (Pc α)} {s : SinkSt} {out : Out α} {e h : Nat}
    {data : List α} (hs : Sect B o p s out) (hr : out.2.2 = .inl (.writeFlash e h data)) :
    s.sink.sessionLive = true ∧ out.1 = s := by
  cases hs with
  | writes _ _ hl => exact ⟨hl, rfl⟩
  | bootFailed | booted | refused | notOpened | beginFails | begins | flashFails | flashed
    | staleAfter | accounts | finishes | ended | endFailed | validated | activates | undone
    | cleared | closed | aborts | drops => cases hr

/-- A section other than an open begins nothing. -/
theorem Sect.not_open {o : SinkCall α} {p : Option (Pc α)} {s : SinkSt} {out : Out α}
    (hs : Sect B o p s out) (hn : p = none → ∀ cfg, o.1 ≠ .sessionOpen cfg) :
    out.1.sink.nextEpoch = s.sink.nextEpoch ∧ out.1.handles = s.handles := by
  cases hs with
  | notOpened ho | beginFails ho | begins ho => exact absurd ho (hn rfl _)
  | _ => exact ⟨rfl, rfl⟩

/-- A write in a session that is not live fails. -/
theorem Sect.dead_write {o : SinkCall α} {p : Option (Pc α)} {s : SinkSt} {out : Out α}
    {err : OtaSinkErr} {e : Option Nat} (hs : Sect B o p s out) (hl : s.sink.sessionLive = false)
    (hw : (∃ e data, o.1 = .write e data)) (hp : ∀ pc, p = some pc → ∃ e h data n,
      pc = .writeFlash e h data ∨ pc = .writeAccount e n) (hr : out.2.2 = .inr (.ret err e)) :
    err ≠ .ok ∧ err ≠ .nvs := by
  obtain ⟨e', data', hw⟩ := hw
  cases hs with
  | refused h1 h2 => cases hr; exact ⟨h1, h2⟩
  | flashFails | staleAfter => cases hr; exact ⟨by decide, by decide⟩
  | accounts hl' => rw [hl] at hl'; cases hl'
  | notOpened ho | beginFails ho | begins ho | aborts ho | drops ho => rw [hw] at ho; cases ho
  | writes | flashed | finishes | ended | activates | bootFailed | booted | cleared => cases hr
  | endFailed | validated | undone | closed =>
    obtain ⟨_, _, _, _, h | h⟩ := hp _ rfl <;> cases h

/-- The number of handles never falls. -/
theorem Sect.handles_le {o : SinkCall α} {p : Option (Pc α)} {s : SinkSt} {out : Out α}
    (hs : Sect B o p s out) : s.handles ≤ out.1.handles := by
  cases hs with
  | begins => exact Nat.le_succ _
  | _ => exact Nat.le_refl _

/-! ## A move of the system -/

/-- **What a move of the system can do**: a section of a call, or an invalidation. -/
theorem sinkCode_step_cases {m : Lib.Move (SinkCall α)} {x x' : SinkSys α}
    (h : (sinkCode α B).step m x = some x') :
    (∃ o out, m = .call o ∧ x.place = .idle ∧ Sect B o none x.st out ∧
      x' = (sinkCode α B).after o { x with log := x.log ++ [.call o] } out) ∨
    (∃ o p out, m = .run ∧ x.place = .busy o p ∧ Sect B o (some p) x.st out ∧
      x' = (sinkCode α B).after o x out) ∨
    (m = .poke ∧ x' = { x with st := invalidate x.st, log := x.log ++ [.poke] }) := by
  cases m with
  | call o =>
    obtain ⟨hp, rfl⟩ := Lib.Code.step_call h
    exact .inl ⟨o, _, rfl, hp, enter_sect o x.st, rfl⟩
  | run =>
    obtain ⟨o, p, hp, rfl⟩ := Lib.Code.step_run h
    exact .inr (.inl ⟨o, p, _, rfl, hp, resume_sect o p x.st, rfl⟩)
  | poke => exact .inr (.inr ⟨rfl, Lib.Code.step_poke h⟩)

end BleOta
