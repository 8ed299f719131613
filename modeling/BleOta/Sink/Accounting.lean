import BleOta.Sink.Boot
import BleOta.Sink.Refinement

/-!
# The sector accounting of a session

A session is written in chunks, each by one call of `ota_sink_write`. However the same bytes are
cut, and whichever saves fail, the flash, the counters and the session are the same after them.

* `Sectors`: the events of the sectors of a stretch of bytes; `sectorLoop_sectors`: those of the
  sector loop.
* `Cuts`: the chunks of a stretch of bytes; `Accounts`: the session after the bytes.
* `write_step`: one chunk. `sector_accounting`: a whole session.
-/

namespace BleOta

open Lib.Code (events)

variable {α : Type} {B : Board}

/-! ## The sectors of the events -/

/-- The sectors of the `PROGRESS` events. -/
def progressSectors (es : List (Ev α)) : List Nat :=
  es.filterMap fun
    | .fire (.progress p) => some p.sectorsDone
    | _ => none

/-- A save that failed. -/
def Ev.SaveFailed : Ev α → Bool
  | .progressSave _ _ _ err => err ≠ espOk
  | _ => false

/-- The progress record of the first `k` sectors. -/
def sectorRecord (imageSize k : Nat) : Nat × Nat × Nat := (imageSize, otaSectorSize * k, k)

/-- The events announce and save each of the sectors `ks` once, in order, and write nothing. -/
structure Sectors (imageSize : Nat) (ks : List Nat) (es : List (Ev α)) : Prop where
  progress : progressSectors es = ks
  saves : saves es = ks.map (sectorRecord imageSize)
  flash : ∀ hd, flashed hd es = []

theorem progressSectors_append (es es' : List (Ev α)) :
    progressSectors (es ++ es') = progressSectors es ++ progressSectors es' :=
  List.filterMap_append

theorem Sectors.nil (imageSize : Nat) : Sectors imageSize [] ([] : List (Ev α)) :=
  ⟨rfl, rfl, fun _ => rfl⟩

theorem Sectors.append {imageSize : Nat} {ks ks' : List Nat} {es es' : List (Ev α)}
    (h : Sectors imageSize ks es) (h' : Sectors imageSize ks' es') :
    Sectors imageSize (ks ++ ks') (es ++ es') := by
  constructor
  · rw [progressSectors_append, h.progress, h'.progress]
  · rw [saves_append, h.saves, h'.saves, List.map_append]
  · intro hd
    rw [flashed_append, h.flash, h'.flash, List.append_nil]

/-- The events of one full sector. -/
theorem Sectors.single (p : OtaSinkProgress) (imageSize : Nat) (err : EspErr) :
    Sectors imageSize [p.sectorsDone] ([.fire (.progress p),
      .progressSave imageSize (p.sectorsDone * otaSectorSize) p.sectorsDone err] :
        List (Ev α)) := by
  refine ⟨rfl, ?_, fun _ => rfl⟩
  simp [BleOta.saves, sectorRecord, Nat.mul_comm]

/-! ## The sector loop -/

/-- The loop counts and saves exactly the sectors that its fuel allows, and returns
`OTA_SINK_ERR_NVS` if one of these saves fails. -/
theorem sectorLoop_sectors (save : Nat → EspErr) {n : Nat} {s : Sink} (ret : OtaSinkErr)
    (hb : s.bytesWritten < 2 ^ 32) (hn : (s.sectorsDone + n) * otaSectorSize ≤ s.bytesWritten) :
    ∃ dirty es, sectorLoop (α := α) save n s ret =
        ({ s with sectorsDone := s.sectorsDone + n, progressDirty := dirty }, es,
          if es.any Ev.SaveFailed then .nvs else ret) ∧
      Sectors s.imageSize (List.range' (s.sectorsDone + 1) n) es := by
  induction n generalizing s ret with
  | zero => exact ⟨s.progressDirty, [], rfl, .nil _⟩
  | succ n ih =>
    have hd : s.sectorsDone * otaSectorSize ≤ s.bytesWritten :=
      Nat.le_trans (Nat.mul_le_mul_right _ (Nat.le_add_right _ _)) hn
    have hr : otaSectorSize ≤ sectorRest s := by
      rw [sectorRest_eq hb hd]
      rw [Nat.add_mul, Nat.add_mul] at hn
      generalize s.sectorsDone * otaSectorSize = d at *
      omega
    obtain ⟨-, label, hstep⟩ := sectorStep_eq (α := α) save hb hd hr
    rw [sectorLoop, if_pos hr, hstep]
    dsimp only
    have hcomm : s.sectorsDone + (n + 1) = s.sectorsDone + 1 + n := by omega
    rw [hcomm] at hn ⊢
    obtain ⟨dirty, es, hl, hes⟩ := ih (s := { s with
      sectorsDone := s.sectorsDone + 1, progressDirty := save (s.sectorsDone + 1) ≠ espOk })
      (if (if save (s.sectorsDone + 1) ≠ espOk then OtaSinkErr.nvs else .ok) = .nvs then .nvs
        else ret) hb hn
    rw [hl]
    have hone : Sectors (α := α) s.imageSize [s.sectorsDone + 1] _ :=
      .single ⟨s.epoch, label, s.imageSize, s.bytesWritten, s.sectorsDone + 1, false⟩ _
        (save (s.sectorsDone + 1))
    refine ⟨dirty, _ ++ es, ?_, hone.append hes⟩
    by_cases hs : save (s.sectorsDone + 1) = espOk <;> simp [Ev.SaveFailed, hs]

/-- The second section of a write, for a session that has counted its full sectors. -/
theorem account_sectors (epoch len : Nat) (idf : Idf) {s : SinkSt}
    (hb : s.sink.bytesWritten + len < 2 ^ 32)
    (hd : s.sink.sectorsDone = s.sink.bytesWritten / otaSectorSize)
    (hc : sinkEpochIsCurrentLocked epoch s.sink = true) :
    ∃ s' es, otaSinkWriteAccount (α := α) epoch len idf s =
        (s', es, .inr (.ret (if es.any Ev.SaveFailed then .nvs else .ok) none)) ∧
      (∃ dirty, s' = ⟨{ s.sink with
        bytesWritten := s.sink.bytesWritten + len
        sectorsDone := (s.sink.bytesWritten + len) / otaSectorSize
        progressDirty := dirty }, s.handles⟩) ∧
      Sectors s.sink.imageSize (List.range' (s.sink.sectorsDone + 1)
        ((s.sink.bytesWritten + len) / otaSectorSize - s.sink.sectorsDone)) es := by
  have hu : u32 (s.sink.bytesWritten + u32 len) = s.sink.bytesWritten + len := by
    simp only [u32]
    omega
  have hle : s.sink.sectorsDone ≤ (s.sink.bytesWritten + len) / otaSectorSize := by
    rw [hd]
    exact Nat.div_le_div_right (Nat.le_add_right _ _)
  have hfit : s.sink.sectorsDone * otaSectorSize ≤ s.sink.bytesWritten + len :=
    Nat.le_trans (Nat.mul_le_mul_right _ hle) (Nat.div_mul_le_self _ _)
  have hrest : sectorRest { s.sink with bytesWritten := s.sink.bytesWritten + len } /
      otaSectorSize = (s.sink.bytesWritten + len) / otaSectorSize - s.sink.sectorsDone := by
    rw [sectorRest_eq hb hfit, Nat.mul_comm]
    exact Nat.sub_mul_div _ _ _
  obtain ⟨dirty, es, hl, hes⟩ := sectorLoop_sectors (α := α) idf.save
    (n := (s.sink.bytesWritten + len) / otaSectorSize - s.sink.sectorsDone)
    (s := { s.sink with bytesWritten := s.sink.bytesWritten + len }) .ok hb (by
      dsimp only
      rw [Nat.add_sub_cancel' hle]
      exact Nat.div_mul_le_self _ _)
  refine ⟨_, es, ?_, ⟨dirty, rfl⟩, hes⟩
  unfold otaSinkWriteAccount
  rw [if_pos hc, hu]
  dsimp only
  rw [hrest, hl]
  dsimp only
  rw [Nat.add_sub_cancel' hle]

/-! ## The chunks of a session -/

/-- A chunk, with the answers to its write. -/
abbrev Chunk (α : Type) := List α × Idf

/-- The chunks cut `data`; none is empty, and `esp_ota_write` succeeds for each. -/
structure Cuts (data : List α) (ws : List (Chunk α)) : Prop where
  whole : ws.flatMap (·.1) = data
  nonempty : ∀ w ∈ ws, w.1 ≠ []
  written : ∀ w ∈ ws, w.2.write = espOk

/-- The calls that write the chunks. -/
def writeCalls (epoch : Nat) (ws : List (Chunk α)) : List (ApiCall α × Idf) :=
  ws.map fun w => (.write epoch w.1, w.2)

/-- The numbers of the full sectors of `n` bytes. -/
def fullSectors (n : Nat) : List Nat := List.range' 1 (n / otaSectorSize)

/-- The state after a successful open with this epoch. -/
structure JustOpened (x₀ : SinkSys α) (epoch imageSize : Nat) : Prop where
  place : x₀.place = .idle
  live : x₀.st.sink.sessionLive = true
  writing : x₀.st.sink.state = .writing
  epoch : x₀.st.sink.epoch = epoch
  imageSize : x₀.st.sink.imageSize = imageSize
  bytes : x₀.st.sink.bytesWritten = 0
  sectors : x₀.st.sink.sectorsDone = 0
  target : x₀.st.sink.target.isSome

/-- What the session that began in `x₀` is after the bytes `data`: its counters, and the sectors and
the flash of the events since then. -/
structure Accounts (imageSize : Nat) (x₀ : SinkSys α) (data : List α) (y : SinkSys α) : Prop where
  place : y.place = .idle
  st : ∃ dirty, y.st = ⟨{ x₀.st.sink with
      bytesWritten := data.length, sectorsDone := data.length / otaSectorSize,
      progressDirty := dirty }, x₀.st.handles⟩
  log : ∃ es, events y.log = events x₀.log ++ es ∧
    progressSectors es = fullSectors data.length ∧
    saves es = (fullSectors data.length).map (sectorRecord imageSize) ∧
    flashed x₀.st.sink.handle es = data

variable {x₀ y : SinkSys α} {epoch imageSize : Nat} {data : List α} {w : Chunk α}
  {ws : List (Chunk α)}

/-- A call whose log ends with a successful open has opened a session. -/
theorem justOpened {x : SinkSys α} {cfg : OtaSinkSessionCfg} {idf : Idf}
    (ho : (apiSystem α B).step (.sessionOpen cfg, idf) x = some x₀)
    (hret : x₀.log.getLast? =
      some (.ret (.sessionOpen (some cfg), idf) (.ret .ok (some epoch)))) :
    JustOpened x₀ epoch cfg.imageSize := by
  simp only [apiSystem, apiStep, ApiCall.op] at ho
  split at ho
  rotate_left
  · cases ho
  obtain ⟨res, hres, rfl⟩ := Option.map_eq_some_iff.mp ho
  have hend : res.2.2 = .ret .ok (some epoch) := by
    simp only [Lib.Code.returnTo, Lib.Code.after_inr, List.getLast?_append,
      List.getLast?_singleton, Option.some_or, Option.some.injEq, Lib.Entry.ret.injEq,
      true_and] at hret
    exact hret
  have hs := enter_sect (B := B) (α := α) (.sessionOpen (some cfg), idf) x.st
  unfold Lib.Code.whole at hres
  change (sinkCode α B).finish _ 3 (otaSinkEnter B (.sessionOpen (some cfg)) idf x.st) = _ at hres
  generalize otaSinkEnter B (.sessionOpen (some cfg)) idf x.st = out at hs hres
  cases hs with
  | begins hcfg =>
    cases hcfg
    cases hres
    cases hend
    exact ⟨rfl, rfl, rfl, rfl, rfl, rfl, rfl, rfl⟩
  | refused | notOpened | beginFails => cases hres; cases hend
  | writes hop | finishes hop | activates hop | aborts hop | drops hop => cases hop

theorem Accounts.start (hj : JustOpened x₀ epoch imageSize) : Accounts imageSize x₀ [] x₀ where
  place := hj.place
  st := ⟨x₀.st.sink.progressDirty, by
    have hb := hj.bytes
    have hd := hj.sectors
    obtain ⟨⟨sink, handles⟩, place, log⟩ := x₀
    cases sink
    simp_all⟩
  log := ⟨[], (List.append_nil _).symm, by simp [progressSectors, fullSectors],
    by simp [saves, fullSectors], rfl⟩

/-- The sectors that a chunk completes come after those before it. -/
theorem fullSectors_add (n k : Nat) : fullSectors (n + k) = fullSectors n ++
    List.range' (n / otaSectorSize + 1) ((n + k) / otaSectorSize - n / otaSectorSize) := by
  have hle : n / otaSectorSize ≤ (n + k) / otaSectorSize :=
    Nat.div_le_div_right (Nat.le_add_right _ _)
  unfold fullSectors
  rw [Nat.add_comm _ 1, List.range'_append_1, Nat.add_sub_cancel' hle]

/-- **One chunk**: the write returns `OTA_SINK_ERR_NVS` if one of its saves failed, else
`OTA_SINK_OK`, and it accounts for its bytes. -/
theorem Accounts.write (hj : JustOpened x₀ epoch imageSize) (h : Accounts imageSize x₀ data y)
    (hne : w.1 ≠ []) (hw : w.2.write = espOk) (hlt : (data ++ w.1).length < 2 ^ 32) :
    ∃ (y' : SinkSys α) (es : List (Ev α)),
      (apiSystem α B).step (.write epoch w.1, w.2) y = some y' ∧
      y'.log = y.log ++ [.call (.write epoch (some w.1), w.2)] ++ es.map .ev ++
        [.ret (.write epoch (some w.1), w.2)
          (.ret (if es.any Ev.SaveFailed then .nvs else .ok) none)] ∧
      Accounts imageSize x₀ (data ++ w.1) y' := by
  obtain ⟨chunk, idf⟩ := w
  obtain ⟨dirty, hst⟩ := h.st
  obtain ⟨before, hbefore, hprogress, hsaves, hflash⟩ := h.log
  have hlen : chunk.length ≠ 0 := fun hz => hne (List.length_eq_zero_iff.mp hz)
  rw [List.length_append] at hlt
  have hc : sinkEpochIsCurrentLocked epoch y.st.sink = true := by
    rw [hst]
    exact sinkEpochIsCurrentLocked_iff.mpr ⟨hj.live, hj.epoch.symm, hj.writing⟩
  have he : (sinkCode α B).enter (.write epoch (some chunk), idf) y.st =
      (y.st, [], .inl (.writeFlash epoch y.st.sink.handle chunk)) := by
    simp [sinkCode, otaSinkEnter, otaSinkWrite, hlen, hc]
  have hf : (sinkCode α B).resume (.write epoch (some chunk), idf)
      (.writeFlash epoch y.st.sink.handle chunk) y.st =
        (y.st, [.otaWrite y.st.sink.handle chunk espOk],
          .inl (.writeAccount epoch chunk.length)) := by
    simp [sinkCode, otaSinkResume, show idf.write = espOk from hw]
  obtain ⟨s', es, ha, ⟨dirty', hs'⟩, hes⟩ := account_sectors (α := α) epoch chunk.length
    idf (s := y.st) (by rw [hst]; exact hlt) (by rw [hst]) hc
  have hhandle : y.st.sink.handle = x₀.st.sink.handle := by rw [hst]
  rw [hst, show x₀.st.sink.imageSize = imageSize from hj.imageSize] at hes
  have hx : (sinkCode α B).whole 3 (.write epoch (some chunk), idf) y.st = some (s',
      .otaWrite y.st.sink.handle chunk espOk :: es,
      .ret (if es.any Ev.SaveFailed then .nvs else .ok) none) := by
    have ha' : (sinkCode α B).resume (.write epoch (some chunk), idf)
        (.writeAccount epoch chunk.length) y.st =
          (s', es, .inr (.ret (if es.any Ev.SaveFailed then .nvs else .ok) none)) := ha
    rw [Lib.Code.whole, he]
    simp only [Lib.Code.finish, hf, ha', List.nil_append, List.cons_append]
  refine ⟨(sinkCode α B).returnTo (.write epoch (some chunk), idf) y (s', _, _),
    .otaWrite y.st.sink.handle chunk espOk :: es, ?_, rfl, rfl, ⟨dirty', ?_⟩,
    before ++ .otaWrite y.st.sink.handle chunk espOk :: es, ?_, ?_, ?_, ?_⟩
  · simp only [apiSystem, apiStep, h.place, ApiCall.op, hx, Option.map_some]
    rfl
  · change s' = _
    rw [hs', hst, List.length_append]
  · change events (y.log ++ _ ++ List.map _ _ ++ _) = _
    simp only [Lib.Code.events_append, Lib.Code.events_call, Lib.Code.events_nil,
      Lib.Code.events_map_ev, Lib.Code.events_ret, List.append_nil, List.nil_append, hbefore,
      List.append_assoc]
  · rw [progressSectors_append, hprogress, List.length_append, fullSectors_add]
    exact congrArg _ hes.progress
  · rw [saves_append, hsaves, List.length_append, fullSectors_add, List.map_append]
    exact congrArg _ hes.saves
  · rw [flashed_append, flashed_cons, hflash, hes.flash, hhandle, List.append_nil]
    exact congrArg (data ++ ·) (if_pos ⟨rfl, rfl⟩)

/-! ## A session -/

/-- The first chunks cut the first bytes. -/
theorem Cuts.left {ws' : List (Chunk α)} (h : Cuts data (ws ++ ws')) :
    Cuts (ws.flatMap (·.1)) ws :=
  ⟨rfl, fun w hw => h.nonempty w (List.mem_append_left _ hw),
    fun w hw => h.written w (List.mem_append_left _ hw)⟩

theorem Cuts.left_length {ws' : List (Chunk α)} (h : Cuts data (ws ++ ws')) :
    (ws.flatMap (·.1)).length ≤ data.length := by
  rw [← h.whole, List.flatMap_append, List.length_append]
  exact Nat.le_add_right _ _

/-- **The chunks of a session** account for their bytes. -/
theorem Accounts.run (hj : JustOpened x₀ epoch imageSize) (hc : Cuts data ws)
    (hlt : data.length < 2 ^ 32) :
    ∃ y, (apiSystem α B).exec (writeCalls epoch ws) x₀ = some y ∧
      Accounts imageSize x₀ data y := by
  induction ws using List.reverseRecOn generalizing data with
  | nil =>
    obtain rfl : [] = data := hc.whole
    exact ⟨x₀, rfl, .start hj⟩
  | append_singleton ws w ih =>
    have hdata : ws.flatMap (·.1) ++ w.1 = data := by
      rw [← hc.whole]
      simp
    obtain ⟨y, hy, ha⟩ := ih hc.left (Nat.lt_of_le_of_lt hc.left_length hlt)
    rw [← hdata] at hlt ⊢
    have hmem : w ∈ ws ++ [w] := List.mem_append_right _ (List.mem_singleton_self w)
    obtain ⟨y', es, hst, -, ha'⟩ :=
      ha.write (B := B) hj (hc.nonempty w hmem) (hc.written w hmem) hlt
    refine ⟨y', ?_, ha'⟩
    rw [writeCalls, List.map_append]
    exact Lib.Lts.exec_snoc.mpr ⟨y, hy, hst⟩

/-- **Sector accounting does not depend on the chunks and on the saves.** In the session of a
successful open every write returns `OTA_SINK_ERR_NVS` exactly if one of its saves failed, else
`OTA_SINK_OK`, and leaves less than a sector uncounted. After the whole data the session `Accounts`
for it, and any other chunks of the same data, with any other answers to the saves, lead to the
same state, up to `progress_dirty`. `esp_ota_write` succeeds in the partition only, whose size is a
`uint32_t`. -/
theorem sector_accounting {x : SinkSys α} {cfg : OtaSinkSessionCfg} {idf : Idf}
    (ho : (apiSystem α B).step (.sessionOpen cfg, idf) x = some x₀)
    (hret : x₀.log.getLast? =
      some (.ret (.sessionOpen (some cfg), idf) (.ret .ok (some epoch))))
    (hpart : ∀ t, x₀.st.sink.target = some t → t.size < 2 ^ 32 ∧ data.length ≤ t.size)
    (hc : Cuts data ws) :
    (∀ pre w post, ws = pre ++ w :: post →
      ∃ (y y' : SinkSys α) (es : List (Ev α)) (err : OtaSinkErr),
      (apiSystem α B).exec (writeCalls epoch pre) x₀ = some y ∧
      (apiSystem α B).step (.write epoch w.1, w.2) y = some y' ∧
      y'.log = y.log ++ [.call (.write epoch (some w.1), w.2)] ++ es.map .ev ++
        [.ret (.write epoch (some w.1), w.2) (.ret err none)] ∧
      (err = .ok ∨ err = .nvs) ∧ (err = .nvs ↔ ∃ e ∈ es, e.SaveFailed = true) ∧
      otaSectorSize * y'.st.sink.sectorsDone ≤ y'.st.sink.bytesWritten ∧
      y'.st.sink.bytesWritten < otaSectorSize * (y'.st.sink.sectorsDone + 1)) ∧
    ∀ ws', Cuts data ws' → ∃ y y' : SinkSys α,
      (apiSystem α B).exec (writeCalls epoch ws) x₀ = some y ∧
      (apiSystem α B).exec (writeCalls epoch ws') x₀ = some y' ∧
      Accounts cfg.imageSize x₀ data y ∧ Accounts cfg.imageSize x₀ data y' ∧
      ∃ dirty, y'.st = ⟨{ y.st.sink with progressDirty := dirty }, y.st.handles⟩ := by
  have hj := justOpened ho hret
  have hlt : data.length < 2 ^ 32 := by
    obtain ⟨t, ht⟩ := Option.isSome_iff_exists.mp hj.target
    exact Nat.lt_of_le_of_lt (hpart t ht).2 (hpart t ht).1
  constructor
  · rintro pre w post rfl
    have hcut : pre ++ w :: post = (pre ++ [w]) ++ post := by simp
    have hdata : (pre ++ [w]).flatMap (·.1) = pre.flatMap (·.1) ++ w.1 := by simp
    obtain ⟨y, hy, ha⟩ :=
      Accounts.run (B := B) hj hc.left (Nat.lt_of_le_of_lt hc.left_length hlt)
    have hmem : w ∈ pre ++ w :: post := List.mem_append_right _ (List.mem_cons_self ..)
    rw [hcut] at hc
    have hle := hc.left_length
    rw [hdata] at hle
    obtain ⟨y', es, hst, hlog, ha'⟩ :=
      ha.write (B := B) hj (hc.nonempty w (hcut ▸ hmem)) (hc.written w (hcut ▸ hmem))
        (Nat.lt_of_le_of_lt hle hlt)
    obtain ⟨dirty, hst'⟩ := ha'.st
    refine ⟨y, y', es, _, hy, hst, hlog, ?_, ?_, ?_, ?_⟩
    · split
      · exact .inr rfl
      · exact .inl rfl
    · rw [← List.any_eq_true]
      by_cases hf : es.any Ev.SaveFailed = true <;> simp [hf]
    · rw [hst']
      exact Nat.mul_div_le _ _
    · rw [hst']
      exact Nat.lt_mul_div_succ _ (by decide)
  · intro ws' hc'
    obtain ⟨y, hy, ha⟩ := Accounts.run (B := B) hj hc hlt
    obtain ⟨y', hy', ha'⟩ := Accounts.run (B := B) hj hc' hlt
    obtain ⟨dirty, hst⟩ := ha.st
    obtain ⟨dirty', hst'⟩ := ha'.st
    refine ⟨y, y', hy, hy', ha, ha', dirty', ?_⟩
    rw [hst', hst]

/-- A session of 9000 bytes that has just been opened. -/
def opened9000 : SinkSys UInt8 :=
  (apiSystem UInt8 .otaSlots).run [(.sessionOpen ⟨9000, false⟩, .allOk)] sinkInit

/-- The save of the first sector fails, and the second sector ends in the same chunk. -/
def failingSave : List (Chunk UInt8) :=
  [(.replicate 8500 0, { Idf.allOk with save := fun k => if k = 1 then -1 else espOk }),
    (.replicate 500 0, .allOk)]

theorem sector_accounting_failingSave : ∃ y : SinkSys UInt8,
    (apiSystem UInt8 .otaSlots).exec (writeCalls 1 failingSave) opened9000 = some y ∧
      Accounts 9000 opened9000 (.replicate 9000 0) y := by
  have ho : (apiSystem UInt8 .otaSlots).step (.sessionOpen ⟨9000, false⟩, .allOk) sinkInit =
      some opened9000 := rfl
  have hc : Cuts (.replicate 9000 0) failingSave := by
    constructor <;> simp [-List.reduceReplicate, failingSave, Idf.allOk]
  obtain ⟨-, h⟩ := sector_accounting ho rfl (fun t ht => by
    cases ht
    simp [-List.reduceReplicate]) hc
  obtain ⟨y, -, hy, -, ha, -⟩ := h failingSave hc
  exact ⟨y, hy, ha⟩

end BleOta
