import BleOta.Progress.Defs
import BleOta.Sink.Invariant

/-!
# The record of the progress store, and the saves of the sink

* `getU32_append`, `OtaProgress.ofBlob_blob`: the blob that is saved is the blob that is loaded.
* `record nvs`: what a load gives; `otaProgressLoad_ok`, `otaProgressSave_nvs`,
  `otaProgressClear_nvs`: what the functions of the store do to it.
* `account_saves`: the sectors that `ota_sink_write` saves are full.
-/

namespace BleOta

variable {α : Type}

/-! ## The blob -/

@[simp] theorem putU32_length (n : Nat) : (putU32 n).length = 4 := rfl

/-- A field of a structure is read back at its offset. -/
theorem getU32_append (l r : List UInt8) (n : Nat) :
    getU32 (l ++ (putU32 n ++ r)) l.length = u32 n := by
  have hb : ∀ k, (l ++ (putU32 n ++ r)).getD (l.length + k) 0 = (putU32 n ++ r).getD k 0 := by
    intro k
    rw [List.getD_eq_getElem?_getD, List.getElem?_append_right (Nat.le_add_right _ _),
      Nat.add_sub_cancel_left, List.getD_eq_getElem?_getD]
  have h0 := hb 0
  rw [Nat.add_zero] at h0
  unfold getU32
  rw [h0, hb 1, hb 2, hb 3]
  simp only [putU32, u32, List.cons_append, List.nil_append, List.getD_cons_zero,
    List.getD_cons_succ, UInt8.toNat_ofNat']
  omega

/-- The first field of a structure. -/
theorem getU32_head (r : List UInt8) (n : Nat) : getU32 (putU32 n ++ r) 0 = u32 n :=
  getU32_append [] r n

/-- The progress that a blob keeps: every field is a `uint32_t`. -/
def OtaProgress.trunc (p : OtaProgress) : OtaProgress :=
  ⟨u32 p.imageSize, u32 p.offset, u32 p.sectorIndex⟩

@[simp] theorem OtaProgress.blob_length (p : OtaProgress) : p.blob.length = blobSize := by
  simp [OtaProgress.blob, blobSize]

theorem OtaProgress.blob_magic (p : OtaProgress) : getU32 p.blob 0 = otaProgressMagic := by
  have hu : u32 otaProgressMagic = otaProgressMagic := by
    unfold u32 otaProgressMagic
    omega
  rw [OtaProgress.blob, List.append_assoc, List.append_assoc, getU32_head, hu]

theorem OtaProgress.ofBlob_blob (p : OtaProgress) : .ofBlob p.blob = p.trunc := by
  have h1 := getU32_append (putU32 otaProgressMagic) (putU32 p.offset ++ putU32 p.sectorIndex)
    p.imageSize
  have h2 := getU32_append (putU32 otaProgressMagic ++ putU32 p.imageSize) (putU32 p.sectorIndex)
    p.offset
  have h3 := getU32_append (putU32 otaProgressMagic ++ putU32 p.imageSize ++ putU32 p.offset) []
    p.sectorIndex
  simp only [List.append_assoc, List.append_nil, List.length_append, putU32_length] at h1 h2 h3
  simp only [OtaProgress.ofBlob, OtaProgress.trunc, OtaProgress.blob, List.append_assoc, h1, h2, h3]

/-! ## The record -/

/-- The progress in the NVS, if there is a valid one. -/
def record : Nvs → Option OtaProgress
  | none => none
  | some bytes =>
    if bytes.length = blobSize ∧ getU32 bytes 0 = otaProgressMagic then some (.ofBlob bytes)
    else none

@[simp] theorem record_none : record none = none := rfl

theorem record_blob (p : OtaProgress) : record (some p.blob) = some p.trunc := by
  rw [record, if_pos ⟨p.blob_length, p.blob_magic⟩, p.ofBlob_blob]

/-- A load that succeeds gives the record. -/
theorem otaProgressLoad_ok {io : NvsIo} {outs : Bool} {p q : OtaProgress} {nvs : Nvs}
    (h : otaProgressLoad io outs p nvs = (espOk, q)) : record nvs = some q := by
  have hi : espErrInvalidState ≠ espOk := by decide
  have hn : espErrNvsNotFound ≠ espOk := by decide
  have hl : espErrNvsInvalidLength ≠ espOk := by decide
  have ha : espErrInvalidArg ≠ espOk := by decide
  by_cases ho : outs = true
  · by_cases h1 : io.opened = espOk
    · by_cases h2 : io.access = espOk
      · cases nvs with
        | none => simp [otaProgressLoad, progressRw, nvsGetBlob, ho, h1, h2, hn] at h
        | some bytes =>
          by_cases h3 : blobSize < bytes.length
          · simp [otaProgressLoad, progressRw, nvsGetBlob, ho, h1, h2, h3, hl] at h
          · by_cases h4 : bytes.length ≠ blobSize ∨ getU32 bytes 0 ≠ otaProgressMagic
            · simp [otaProgressLoad, progressRw, nvsGetBlob, ho, h1, h2, h3, h4, hi] at h
            · simp only [otaProgressLoad, progressRw, nvsGetBlob, ho, h1, h2, h3, h4, if_true,
                if_false, ne_eq, not_true_eq_false, Bool.false_eq_true, Prod.mk.injEq,
                true_and] at h
              rw [record, if_pos (by simpa using h4), h]
      · simp [otaProgressLoad, progressRw, nvsGetBlob, ho, h1, h2] at h
    · simp [otaProgressLoad, progressRw, ho, h1] at h
  · simp [otaProgressLoad, ho, ha] at h

/-- The record is what a load gives, if the NVS answers. -/
theorem otaProgressLoad_record {nvs : Nvs} {q : OtaProgress} (p : OtaProgress)
    (h : record nvs = some q) : otaProgressLoad .allOk true p nvs = (espOk, q) := by
  cases nvs with
  | none => cases h
  | some bytes =>
    rw [record] at h
    split at h
    · next hb =>
      cases h
      simp [otaProgressLoad, progressRw, nvsGetBlob, NvsIo.allOk, hb.1, hb.2]
    · cases h

/-- A save writes the blob, or leaves the NVS as it was. -/
theorem otaProgressSave_nvs {io : NvsIo} {p : OtaProgress} {nvs nvs' : Nvs} {err : EspErr}
    (h : otaProgressSave io p nvs = (err, nvs')) : nvs' = some p.blob ∨ nvs' = nvs := by
  have hnvs : (progressRw io true p nvs).2.2 = nvs' := (Prod.mk.inj h).2
  subst hnvs
  unfold progressRw
  split
  · exact .inr rfl
  · dsimp only
    rw [if_pos rfl]
    by_cases he : (if io.access = espOk then io.commit else io.access) = espOk ∨ io.kept
    · exact .inl (if_pos he)
    · exact .inr (if_neg he)

/-- A clear erases the key, or leaves the NVS as it was. -/
theorem otaProgressClear_nvs {io : NvsIo} {nvs nvs' : Nvs} {err : EspErr}
    (h : otaProgressClear io nvs = (err, nvs')) : nvs' = none ∨ nvs' = nvs := by
  have hnvs : (otaProgressClear io nvs).2 = nvs' := by rw [h]
  subst hnvs
  unfold otaProgressClear
  by_cases ho : io.opened = espOk
  · rw [if_neg (by simpa using ho)]
    dsimp only
    generalize (if (if nvsEraseKey io nvs = espErrNvsNotFound then espOk
      else nvsEraseKey io nvs) = espOk then io.commit else _) = err
    by_cases he : err = espOk ∨ io.kept
    · exact .inl (if_pos he)
    · exact .inr (if_neg he)
  · rw [if_pos ho]
    exact .inr rfl

/-! ## The saves of the sector loop -/

/-- An event of the sink's user, or the save of full sectors of the session of `s`. -/
def Ev.SavesFull (s : Sink) : Ev α → Prop
  | .progressSave size offset sector _ =>
    size = s.imageSize ∧ offset = otaSectorSize * sector ∧ offset ≤ s.bytesWritten
  | .fire _ => True
  | _ => False

theorem sectorLoop_saves (save : Nat → EspErr) (n : Nat) {s : Sink} (ret : OtaSinkErr)
    (hb : s.bytesWritten < 2 ^ 32) (hd : s.sectorsDone * otaSectorSize ≤ s.bytesWritten) :
    (∀ e ∈ (sectorLoop (α := α) save n s ret).2.1, e.SavesFull s) ∧
      (sectorLoop (α := α) save n s ret).1.sectorsDone * otaSectorSize ≤ s.bytesWritten := by
  induction n generalizing s ret with
  | zero => exact ⟨by simp [sectorLoop], hd⟩
  | succ n ih =>
    rw [sectorLoop]
    split
    · next hle =>
      obtain ⟨hlt, label, hstep⟩ := sectorStep_eq (α := α) save hb hd hle
      rw [hstep]
      dsimp only
      obtain ⟨h1, h2⟩ := ih (s := { s with
          sectorsDone := s.sectorsDone + 1, progressDirty := save (s.sectorsDone + 1) ≠ espOk })
        (if (if save (s.sectorsDone + 1) ≠ espOk then OtaSinkErr.nvs else .ok) = .nvs then .nvs
          else ret) hb hlt
      refine ⟨fun e he => ?_, h2⟩
      rcases List.mem_append.mp he with he | he
      · simp only [List.mem_cons, List.not_mem_nil, or_false] at he
        rcases he with rfl | rfl
        · trivial
        · exact ⟨rfl, Nat.mul_comm _ _, hlt⟩
      · exact h1 e he
    · exact ⟨by simp, hd⟩

/-- **The saves of `ota_sink_write`** are of full sectors that are accounted, if the bytes of the
session are less than `2 ^ 32`. -/
theorem account_saves {e len : Nat} (idf : Idf) {s : SinkSt}
    (hb : s.sink.bytesWritten + len < 2 ^ 32)
    (hd : s.sink.sectorsDone * otaSectorSize ≤ s.sink.bytesWritten)
    (hc : sinkEpochIsCurrentLocked e s.sink = true) :
    ∃ d p es ret, otaSinkWriteAccount (α := α) e len idf s =
        (⟨{ s.sink with
            bytesWritten := s.sink.bytesWritten + len, sectorsDone := d, progressDirty := p },
          s.handles⟩, es, .inr (.ret ret none)) ∧
      d * otaSectorSize ≤ s.sink.bytesWritten + len ∧
      ∀ ev ∈ es, ev.SavesFull { s.sink with bytesWritten := s.sink.bytesWritten + len } := by
  have hl : u32 len = len := Nat.mod_eq_of_lt (by omega)
  have hu : u32 (s.sink.bytesWritten + u32 len) = s.sink.bytesWritten + len := by
    rw [hl]
    exact Nat.mod_eq_of_lt hb
  obtain ⟨sink, hsink⟩ : ∃ sink, sink = { s.sink with
      bytesWritten := s.sink.bytesWritten + len } := ⟨_, rfl⟩
  have hsb : sink.bytesWritten = s.sink.bytesWritten + len := by rw [hsink]
  have hsd : sink.sectorsDone = s.sink.sectorsDone := by rw [hsink]
  obtain ⟨h1, h2⟩ := sectorLoop_saves (α := α) idf.save (sectorRest sink / otaSectorSize)
    (s := sink) .ok (hsb ▸ hb) (by rw [hsb, hsd]; exact Nat.le_trans hd (Nat.le_add_right _ _))
  obtain ⟨⟨d, p, h3⟩, -⟩ := sectorLoop_spec (α := α) idf.save (sectorRest sink / otaSectorSize)
    sink .ok
  rw [h3, hsb] at h2
  refine ⟨d, p, (sectorLoop idf.save (sectorRest sink / otaSectorSize) sink .ok).2.1,
    (sectorLoop (α := α) idf.save (sectorRest sink / otaSectorSize) sink .ok).2.2, ?_, h2, ?_⟩
  · unfold otaSinkWriteAccount
    rw [if_pos hc, hu]
    dsimp only
    rw [← hsink, h3, hsink]
  · rw [← hsink]
    exact h1

end BleOta
