import BleOta.Progress.Lemmas

/-!
# The record of the progress against the flash

`Media.NotAhead`: if the progress loads, it is the progress of the session of the slot, and the
flash has at least its bytes. An open begins a new session over the record of an older one: the
record stays until `ota_sink_activate` clears it.

* `Powered P C m`: the media `m` may be what a power loss leaves, after any number of boots, each
  with a board that has `P`, whose steps all meet `C`.
* `record_not_ahead`: it is `NotAhead`, if every session begins without a record (`Recordless`).
* `forgotten_record`: without that it is not.
-/

namespace BleOta

open Lib (Replay Safe)
open Lib.Code (events returned)

variable {α : Type}

/-- The progress is of the session of the slot: full sectors, and not more than the flash has. -/
def Describes (p : OtaProgress) (slot : Option Slot) : Prop :=
  p.offset = otaSectorSize * p.sectorIndex ∧
    ∃ s, slot = some s ∧ s.imageSize = p.imageSize ∧ p.offset ≤ s.written

/-- What `ota_progress_load` gives describes the slot. -/
def Media.NotAhead (m : Media) : Prop :=
  ∀ io outs p q, otaProgressLoad io outs p m.nvs = (espOk, q) → Describes q m.slot

/-- The media after the calls `es` of the sink. -/
abbrev MediaReplay (es : List (Ev α)) : Media → Media → Prop := Replay Media.Step es

/-- The call `o` is an open that comes to `esp_ota_begin`. -/
def Begins (B : Board) (s : SinkSt) (o : SinkCall α) : Prop :=
  ∃ cfg target, o.1 = .sessionOpen (some cfg) ∧ cfg.imageSize ≠ 0 ∧
    (settleAbort s.sink).1.sessionLive = false ∧
    B.running.bind B.nextUpdate = some target ∧ cfg.imageSize ≤ target.size

/-- A session begins only when the NVS, which held `m₀.nvs` at the boot, has no record. -/
def Recordless (B : Board) (m₀ : Media) (x : SinkSys α) (l : Lib.Move (SinkCall α)) : Prop :=
  ∀ o, l = .call o → Begins B x.st o →
    ∀ m, MediaReplay (events x.log) m₀ m → record m.nvs = none

/-- The media that power losses leave: of a new device, or of a boot from such media that the power
loss ends at any call of the sink. The partition that runs, and so the board, may differ from boot
to boot. -/
inductive Powered (P : Board → Prop)
    (C : Board → Media → SinkSys α → Lib.Move (SinkCall α) → Prop) : Media → Prop
  | new : Powered P C .blank
  | loss {B m₀ m x es} : Powered P C m₀ → P B → (sinkSystem α B).Run (C B m₀) sinkInit x →
      es <+: events x.log → MediaReplay es m₀ m → Powered P C m

/-- The size of the slot that an open would erase fits into `esp_partition_t.size`. -/
def Board.TargetFits (B : Board) : Prop :=
  ∀ t, B.running.bind B.nextUpdate = some t → t.size < 2 ^ 32

/-! ## The events -/

theorem notAhead_of_record {m : Media} (h : ∀ q, record m.nvs = some q → Describes q m.slot) :
    m.NotAhead :=
  fun _ _ _ q hl => h q (otaProgressLoad_ok hl)

theorem Media.NotAhead.record {m : Media} (h : m.NotAhead) {q : OtaProgress}
    (hq : record m.nvs = some q) : Describes q m.slot :=
  h _ _ q q (otaProgressLoad_record q hq)

theorem notAhead_recordless {m : Media} (h : record m.nvs = none) : m.NotAhead :=
  notAhead_of_record fun q hq => by rw [h] at hq; cases hq

/-- The event leaves the slot alone; if it saves, the progress describes the slot. -/
def Ev.Fits (slot : Option Slot) : Ev α → Prop
  | .otaBegin .. | .otaWrite .. => False
  | .progressSave size offset sector _ => Describes (OtaProgress.trunc ⟨size, offset, sector⟩) slot
  | _ => True

/-- Such an event keeps what `NotAhead` says. -/
theorem Ev.Fits.step {slot : Option Slot} {e : Ev α} (he : e.Fits slot) {m m' : Media}
    (hm : m.NotAhead ∧ m.slot = slot) (hs : Media.Step e m m') : m'.NotAhead ∧ m'.slot = slot := by
  obtain ⟨hn, hsl⟩ := hm
  cases hs with
  | began | beginFailed | wrote | writeFailed => exact he.elim
  | saved io h =>
    refine ⟨notAhead_of_record fun q hq => ?_, hsl⟩
    rcases otaProgressSave_nvs h with rfl | rfl
    · rw [record_blob, Option.some.injEq] at hq
      subst hq
      exact hsl ▸ he
    · exact hn.record hq
  | cleared io h =>
    refine ⟨notAhead_of_record fun q hq => ?_, hsl⟩
    rcases otaProgressClear_nvs h with rfl | rfl
    · cases hq
    · exact hn.record hq
  | ended | aborted | booted | fired => exact ⟨hn, hsl⟩

theorem Ev.Fits.safe {es : List (Ev α)} {m : Media} (he : ∀ e ∈ es, e.Fits m.slot)
    (hm : m.NotAhead) : Safe Media.Step Media.NotAhead es m :=
  Safe.of_keeps (I := fun m' => m'.NotAhead ∧ m'.slot = m.slot)
    (fun e hmem _ _ hI hs => (he e hmem).step hI hs) (fun _ hI => hI.1) ⟨hm, rfl⟩

theorem Ev.Fits.slot {es : List (Ev α)} {m m' : Media} (he : ∀ e ∈ es, e.Fits m.slot)
    (hm : m.NotAhead) (hr : MediaReplay es m m') : m'.NotAhead ∧ m'.slot = m.slot :=
  hr.keeps (I := fun m' => m'.NotAhead ∧ m'.slot = m.slot)
    (fun e hmem _ _ hI hs => (he e hmem).step hI hs) ⟨hm, rfl⟩

/-- The deferred abort leaves the slot alone. -/
theorem settleEvents_fits (s : Sink) (slot : Option Slot) :
    ∀ e ∈ (settleEvents s : List (Ev α)), e.Fits slot := by
  intro e he
  rw [settleEvents_mem he]
  trivial

/-! ## The session and its slot -/

/-- The bytes that `ota_sink_write` has written and not accounted. -/
def unaccounted : Lib.Place (SinkCall α) (Pc α) → Nat
  | .busy _ (.writeAccount _ len) => len
  | _ => 0

/-- The slot has the bytes of the session that is written. -/
structure Tied (place : Lib.Place (SinkCall α) (Pc α)) (s : Sink) (slot : Slot) : Prop where
  size : slot.imageSize = s.imageSize
  size_lt : slot.imageSize < 2 ^ 32
  written : s.bytesWritten + unaccounted place ≤ slot.written
  capacity : slot.written ≤ slot.capacity
  capacity_lt : slot.capacity < 2 ^ 32
  sectors : s.sectorsDone * otaSectorSize ≤ s.bytesWritten

/-- While a session is written, its slot is tied to it. -/
def SlotOk (place : Lib.Place (SinkCall α) (Pc α)) (s : SinkSt) (m : Media) : Prop :=
  s.sink.state = .writing → ∃ slot, m.slot = some slot ∧ Tied place s.sink slot

variable {B : Board} {o : SinkCall α} {p : Option (Pc α)} {s : SinkSt} {out : Out α} {m : Media}
  {place : Lib.Place (SinkCall α) (Pc α)}

/-- Every place after a return has accounted what was written. -/
theorem unaccounted_ret (r : Ret) : unaccounted ((sinkCode α B).next o (.inr r)) = 0 := by
  unfold Lib.Code.next
  dsimp only
  split <;> rfl

/-- At each of the calls `es` the record is behind the flash, and after them the slot is tied to
the session. -/
def MediaSafe (place : Lib.Place (SinkCall α) (Pc α)) (s : SinkSt) (es : List (Ev α))
    (m : Media) : Prop :=
  Safe Media.Step Media.NotAhead es m ∧ ∀ m', MediaReplay es m m' → SlotOk place s m'

theorem MediaSafe.append {place' : Lib.Place (SinkCall α) (Pc α)} {s' : SinkSt}
    {es es' : List (Ev α)} (h : MediaSafe place s es m)
    (h' : ∀ m', MediaReplay es m m' → m'.NotAhead → SlotOk place s m' →
      MediaSafe place' s' es' m') :
    MediaSafe place' s' (es ++ es') m := by
  constructor
  · exact h.1.append fun m' hr => (h' m' hr (h.1.all hr) (h.2 m' hr)).1
  · intro m'' hr
    obtain ⟨m', h1, h2⟩ := Lib.replay_append.mp hr
    exact (h' m' h1 (h.1.all h1) (h.2 m' h1)).2 m'' h2

/-- Calls that leave the slot alone. -/
theorem MediaSafe.of_fits {es : List (Ev α)} (hm : m.NotAhead) (hfit : ∀ e ∈ es, e.Fits m.slot)
    (hs : s.sink.state = .writing → ∃ slot, m.slot = some slot ∧ Tied place s.sink slot) :
    MediaSafe place s es m := by
  refine ⟨Ev.Fits.safe hfit hm, fun m' hr hw => ?_⟩
  rw [(Ev.Fits.slot hfit hm hr).2]
  exact hs hw

/-- The deferred abort leaves the media alone. -/
theorem settleEvents_replay {m' : Media} {k : Sink}
    (hr : MediaReplay (settleEvents k : List (Ev α)) m m') : m' = m := by
  refine hr.keeps (I := fun m' => m' = m) (fun e he m₁ m₂ hI hs => ?_) rfl
  rw [settleEvents_mem he] at hs
  cases hs
  exact hI

/-- An open that comes to `esp_ota_begin`, without a record. -/
theorem MediaSafe.of_begin {k : Sink} {e e' : Ev α} (hm : m.NotAhead) (hr : record m.nvs = none)
    (hb : ∀ m', Media.Step e m m' → m'.nvs = m.nvs) (he : ∀ slot, e'.Fits slot)
    (hs : ∀ m', Media.Step e m m' → SlotOk place s m') :
    MediaSafe place s (settleEvents k ++ [e, e']) m := by
  have hfit : ∀ slot, ∀ ev ∈ [e'], ev.Fits slot := fun slot ev hev => by
    rw [List.mem_singleton.mp hev]
    exact he slot
  have hafter : ∀ m', Media.Step e m m' → m'.NotAhead :=
    fun m' hst => notAhead_recordless (by rw [hb m' hst]; exact hr)
  constructor
  · refine Safe.append (Ev.Fits.safe (settleEvents_fits _ _) hm) fun m₁ h1 => ?_
    obtain rfl := settleEvents_replay h1
    exact Lib.safe_cons hm fun m' hst => Ev.Fits.safe (hfit _) (hafter m' hst)
  · intro m' hrep
    obtain ⟨m₁, h1, h2⟩ := Lib.replay_append.mp hrep
    obtain rfl := settleEvents_replay h1
    cases h2 with
    | cons hst h3 =>
      intro hw
      rw [(Ev.Fits.slot (hfit _) (hafter _ hst) h3).2]
      exact hs _ hst hw

/-! ## The sections -/

/-- A successful write: the flash has more bytes, the record is as it was. -/
theorem wrote_safe {h : Nat} {data : List α} (hm : m.NotAhead) {m' : Media}
    (hs : Media.Step (.otaWrite h data espOk) m m') :
    m'.NotAhead ∧ ∃ slot, m.slot = some slot ∧ slot.written + data.length ≤ slot.capacity ∧
      m'.slot = some { slot with written := slot.written + data.length } := by
  cases hs with
  | wrote hsl _ hle =>
    refine ⟨notAhead_of_record fun q hq => ?_, _, hsl, hle, rfl⟩
    obtain ⟨ho, slot, hsl', hi, hle'⟩ := hm.record hq
    rw [hsl] at hsl'
    cases hsl'
    exact ⟨ho, _, rfl, hi, Nat.le_trans hle' (Nat.le_add_right _ _)⟩
  | writeFailed hne => exact absurd rfl hne

/-- The session goes on as it was. -/
theorem SlotOk.keep {place' : Lib.Place (SinkCall α) (Pc α)} {s' : Sink} (h : SlotOk place s m)
    (hst : s'.state = s.sink.state) (hi : s'.imageSize = s.sink.imageSize)
    (hb : s'.bytesWritten = s.sink.bytesWritten) (hd : s'.sectorsDone = s.sink.sectorsDone)
    (hu : unaccounted place' ≤ unaccounted place) (hw : s'.state = .writing) :
    ∃ slot, m.slot = some slot ∧ Tied place' s' slot := by
  obtain ⟨slot, h1, h2⟩ := h (hst ▸ hw)
  refine ⟨slot, h1, ⟨hi ▸ h2.size, h2.size_lt, ?_, h2.capacity, h2.capacity_lt, ?_⟩⟩
  · rw [hb]
    exact Nat.le_trans (Nat.add_le_add_left hu _) h2.written
  · rw [hb, hd]
    exact h2.sectors

/-- An open for which `esp_ota_begin` fails: it may have erased the slot. -/
theorem beginFails_media {k : Sink} {t : Partition} {n h : Nat} {err ier : EspErr} {e : OtaSinkErr}
    (hm : m.NotAhead) (hr : record m.nvs = none) (herr : err ≠ espOk)
    (hst : s.sink.state ≠ .writing) :
    MediaSafe place s (settleEvents k ++ [.otaBegin t n h err, sinkFireError e ier]) m := by
  refine .of_begin hm hr (fun m' h => ?_) (fun _ => trivial) (fun m' _ hw => absurd hw hst)
  cases h with
  | began => exact absurd rfl herr
  | beginFailed => rfl

/-- A session that begins: the slot is erased, and tied to it. -/
theorem begins_media {k k' : Sink} {t : Partition} {n h : Nat} {ev : OtaSinkEvent} {r : Ret}
    (hm : m.NotAhead) (hr : record m.nvs = none) (hfit : n ≤ t.size) (ht : t.size < 2 ^ 32) :
    MediaSafe ((sinkCode α B).next o (.inr r)) ⟨registerSession t n h k', h⟩
      (settleEvents k ++ [.otaBegin t n h espOk, .fire ev]) m := by
  refine .of_begin hm hr (fun m' h => ?_) (fun _ => trivial) (fun m' h _ => ?_)
  · cases h with
    | began => rfl
    | beginFailed _ hne => exact absurd rfl hne
  · cases h with
    | began =>
      refine ⟨_, rfl, rfl, Nat.lt_of_le_of_lt hfit ht, ?_, Nat.zero_le _, ht, ?_⟩
      · rw [unaccounted_ret]
        exact Nat.le_refl _
      · simp [registerSession]
    | beginFailed _ hne => exact absurd rfl hne

/-- A write that fails leaves the media alone. -/
theorem writeFails_media {h : Nat} {data : List α} {err ier : EspErr} {e : OtaSinkErr}
    (hm : m.NotAhead) (herr : err ≠ espOk) (hsl : SlotOk place s m) :
    MediaSafe place s [.otaWrite h data err, sinkFireError e ier] m := by
  have hsame : ∀ m', Media.Step (.otaWrite h data err) m m' → m' = m := by
    intro m' hst
    cases hst with
    | wrote => exact absurd rfl herr
    | writeFailed => rfl
  have hfit : ∀ ev ∈ [(sinkFireError e ier : Ev α)], ev.Fits m.slot := by
    simp [Ev.Fits, sinkFireError]
  constructor
  · refine Lib.safe_cons hm fun m' hst => ?_
    rw [hsame m' hst]
    exact Ev.Fits.safe hfit hm
  · intro m' hr hw
    cases hr with
    | cons hst hr =>
      rw [hsame _ hst] at hr
      rw [(Ev.Fits.slot hfit hm hr).2]
      exact hsl hw

/-- A write that succeeds: the flash has its bytes, which are not accounted yet. -/
theorem writes_media {e h : Nat} {data : List α} (hm : m.NotAhead)
    (hsl : SlotOk (.busy o (.writeFlash e h data)) s m) :
    MediaSafe (.busy o (.writeAccount e data.length)) s [.otaWrite h data espOk] m := by
  constructor
  · exact Lib.safe_cons hm fun m' hst => Lib.safe_nil (wrote_safe hm hst).1
  · intro m' hr hw
    cases hr with
    | cons hst hr =>
      cases hr
      obtain ⟨-, slot, h1, hle, h2⟩ := wrote_safe hm hst
      obtain ⟨slot', h1', ht⟩ := hsl hw
      rw [h1] at h1'
      cases h1'
      exact ⟨_, h2, ht.size, ht.size_lt, Nat.add_le_add_right ht.written _, hle, ht.capacity_lt,
        ht.sectors⟩

/-- **Every section** but the second one of a write that is accounted. -/
theorem Sect.media (hs : Sect B o p s out) (hok : SinkOk (placeAt o p) s) (hm : m.NotAhead)
    (hsl : SlotOk (placeAt o p) s m) (hB : B.TargetFits)
    (hrec : ∀ t n h err, .otaBegin t n h err ∈ out.2.1 → record m.nvs = none)
    (hp : ∀ e n, p = some (.writeAccount e n) → sinkEpochIsCurrentLocked e s.sink = false) :
    MediaSafe ((sinkCode α B).next o out.2.2) out.1 out.2.1 m := by
  cases hs with
  | refused | writes | staleAfter | finishes | ended | bootFailed | booted | cleared =>
    exact .of_fits hm (by simp [Ev.Fits]) (hsl.keep rfl rfl rfl rfl (Nat.zero_le _))
  | closed =>
    refine .of_fits hm (by simp [Ev.Fits]) (hsl.keep rfl rfl rfl rfl ?_)
    rw [unaccounted_ret]
    exact Nat.zero_le _
  | notOpened =>
    refine .of_fits hm (settleEvents_fits _ _) fun hw => ?_
    rcases settleAbort_cases s.sink with ⟨-, he⟩ | ⟨-, -, he⟩ | ⟨-, -, he⟩
    · rw [he] at hw ⊢
      exact hsl.keep rfl rfl rfl rfl (Nat.zero_le _) hw
    · rw [he] at hw
      cases hw
    · rw [he] at hw
      cases hw
  | beginFails ho hl ht hb =>
    have hr := hrec _ _ _ _ (List.mem_append_right _ (List.mem_cons_self ..))
    exact beginFails_media hm hr hb ((SinkOk.settle hok).2 hl).2.1
  | begins ho hl ht h0 hf hb =>
    have hr := hrec _ _ _ _ (List.mem_append_right _ (List.mem_cons_self ..))
    exact begins_media hm hr hf (hB _ ht)
  | flashFails hne =>
    exact writeFails_media hm hne (hsl.keep rfl rfl rfl rfl (Nat.zero_le _))
  | flashed => exact writes_media hm hsl
  | accounts hl he hw =>
    have := hp _ _ rfl
    simp [sinkEpochIsCurrentLocked_iff.mpr ⟨hl, he, hw⟩] at this
  | endFailed | validated | activates | undone | aborts | drops =>
    refine .of_fits hm (by simp [Ev.Fits, sinkFireError]) fun hw => ?_
    cases hw

/-- The second section of a write that is accounted. -/
theorem account_media {e n : Nat} (hc : sinkEpochIsCurrentLocked e s.sink = true)
    (hm : m.NotAhead) (hsl : SlotOk (.busy o (.writeAccount e n)) s m) :
    MediaSafe (α := α) .idle (otaSinkWriteAccount (α := α) e n o.2 s).1
      (otaSinkWriteAccount (α := α) e n o.2 s).2.1 m := by
  obtain ⟨-, -, hw⟩ := sinkEpochIsCurrentLocked_iff.mp hc
  obtain ⟨slot, hslot, ht⟩ := hsl hw
  have hle : s.sink.bytesWritten + n ≤ slot.written := ht.written
  have hlt : slot.written < 2 ^ 32 := Nat.lt_of_le_of_lt ht.capacity ht.capacity_lt
  have hb : s.sink.bytesWritten + n < 2 ^ 32 := Nat.lt_of_le_of_lt hle hlt
  obtain ⟨d, p, es, ret, heq, hd, hes⟩ := @account_saves α e n o.2 s hb ht.sectors hc
  rw [heq]
  refine .of_fits hm (fun ev hev => ?_) fun _ => ?_
  · have hf := hes ev hev
    cases ev with
    | progressSave size offset sector err =>
      obtain ⟨h1, h2, h3⟩ := hf
      have hsz : u32 size = size := Nat.mod_eq_of_lt (by rw [h1, ← ht.size]; exact ht.size_lt)
      have ho : u32 offset = offset := Nat.mod_eq_of_lt (Nat.lt_of_le_of_lt h3 hb)
      have hk : u32 sector = sector := by
        refine Nat.mod_eq_of_lt (Nat.lt_of_le_of_lt ?_ (Nat.lt_of_le_of_lt h3 hb))
        rw [h2]
        exact Nat.le_mul_of_pos_left _ (by decide)
      refine ⟨?_, slot, hslot, ?_, ?_⟩
      · change u32 offset = otaSectorSize * u32 sector
        rw [ho, hk, h2]
      · change slot.imageSize = u32 size
        rw [hsz, h1, ht.size]
      · change u32 offset ≤ slot.written
        rw [ho]
        exact Nat.le_trans h3 hle
    | fire => trivial
    | _ => exact hf.elim
  · exact ⟨slot, hslot, ht.size, ht.size_lt, hle, ht.capacity, ht.capacity_lt, hd⟩

/-- Only an open calls `esp_ota_begin`. -/
theorem Sect.begin_open (hs : Sect B o p s out) {t : Partition} {n h : Nat} {err : EspErr}
    (he : .otaBegin t n h err ∈ out.2.1) : p = none ∧ ∃ cfg, o.1 = .sessionOpen (some cfg) := by
  cases hs with
  | notOpened ho | beginFails ho | begins ho => exact ⟨rfl, _, ho⟩
  | accounts _ _ _ hp => exact (hp _ he).elim
  | refused | writes | flashFails | flashed | staleAfter | finishes | ended | endFailed | validated
    | activates | bootFailed | booted | undone | cleared | closed | aborts | drops =>
    simp [sinkFireError] at he

/-- An open with a call of `esp_ota_begin` is one that comes to it. -/
theorem open_begins {t : Partition} {n h : Nat} {err : EspErr}
    (he : .otaBegin t n h err ∈ (otaSinkEnter (α := α) B o.1 o.2 s).2.1) : Begins B s o := by
  obtain ⟨-, cfg, ho⟩ := (enter_sect o s).begin_open he
  simp only [ho, otaSinkEnter, otaSinkSessionOpen] at he
  split at he
  · simp at he
  next h0 =>
  split at he
  · exact absurd (settleEvents_mem he) (by simp)
  next hl =>
  split at he
  · exact absurd (settleEvents_mem he) (by simp)
  next running hr =>
  split at he
  · exact absurd (settleEvents_mem he) (by simp)
  next target ht =>
  split at he
  · exact absurd (settleEvents_mem he) (by simp)
  next hf =>
  exact ⟨cfg, target, ho, h0, by simpa using hl, by simp [hr, ht], Nat.le_of_not_lt hf⟩

/-! ## The runs -/

/-- **A first section** keeps the record behind the flash, if it begins no session over one. -/
theorem enter_media (hok : SinkOk (α := α) .idle s) (hm : m.NotAhead)
    (hsl : SlotOk (α := α) .idle s m) (hB : B.TargetFits)
    (hrec : Begins B s o → record m.nvs = none) :
    MediaSafe ((sinkCode α B).next o (otaSinkEnter B o.1 o.2 s).2.2)
      (otaSinkEnter B o.1 o.2 s).1 (otaSinkEnter B o.1 o.2 s).2.1 m :=
  (enter_sect o s).media (p := none) hok hm hsl hB (fun _ _ _ _ he => hrec (open_begins he))
    (fun _ _ h => by cases h)

/-- **A later section** keeps the record behind the flash. -/
theorem resume_media {pc : Pc α} (hok : SinkOk (.busy o pc) s) (hm : m.NotAhead)
    (hsl : SlotOk (.busy o pc) s m) (hB : B.TargetFits) :
    MediaSafe ((sinkCode α B).next o (otaSinkResume o.2 pc s).2.2) (otaSinkResume o.2 pc s).1
      (otaSinkResume o.2 pc s).2.1 m := by
  by_cases hacc : ∃ e n, pc = .writeAccount e n ∧ sinkEpochIsCurrentLocked e s.sink = true
  · obtain ⟨e, n, rfl, hc⟩ := hacc
    have h := account_media hc hm hsl
    have hnext : (sinkCode α B).next o (otaSinkWriteAccount e n o.2 s).2.2 = .idle := by
      unfold otaSinkWriteAccount
      split <;> rfl
    exact hnext ▸ h
  · refine (resume_sect o pc s).media (p := some pc) hok hm hsl hB (fun _ _ _ _ he => ?_)
      (fun e n h => ?_)
    · cases ((resume_sect (B := B) o pc s).begin_open he).1
    · cases h
      exact Bool.not_eq_true _ ▸ fun hc => hacc ⟨e, n, rfl, hc⟩

/-- The media have been safe at every call of a state, and the slot is tied to its session. -/
def MediaOk (m₀ : Media) (x : SinkSys α) : Prop := MediaSafe x.place x.st (events x.log) m₀

theorem MediaOk.init {m₀ : Media} (h : m₀.NotAhead) : MediaOk m₀ (sinkInit (α := α)) :=
  .of_fits h (by simp [sinkInit]) (fun hw => by cases hw)

/-- **One move** keeps the media safe. -/
theorem MediaOk.step {m₀ : Media} {x x' : SinkSys α} {l : Lib.Move (SinkCall α)}
    (hB : B.TargetFits) (hr : (sinkSystem α B).Reach x) (h : MediaOk m₀ x)
    (hc : Recordless B m₀ x l) (hst : (sinkSystem α B).step l x = some x') : MediaOk m₀ x' := by
  have hok := SinkOk.reach hr
  cases l with
  | call o =>
    obtain ⟨hp, rfl⟩ := Lib.Code.step_call hst
    unfold MediaOk at h ⊢
    rw [hp] at h hok
    rw [Lib.Code.after_st, Lib.Code.after_place, Lib.Code.after_log]
    simp only [Lib.Code.events_append, Lib.Code.events_call, Lib.Code.events_nil,
      List.append_nil, Lib.Code.events_map_ev, Lib.Code.events_returned]
    exact h.append fun m hrep hn hsl =>
      enter_media hok hn hsl hB fun hb => hc o rfl hb m hrep
  | run =>
    obtain ⟨o, p, hp, rfl⟩ := Lib.Code.step_run hst
    unfold MediaOk at h ⊢
    rw [hp] at h hok
    rw [Lib.Code.after_st, Lib.Code.after_place, Lib.Code.after_log]
    simp only [Lib.Code.events_append, List.append_nil, Lib.Code.events_map_ev,
      Lib.Code.events_returned]
    exact h.append fun m hrep hn hsl => resume_media hok hn hsl hB
  | poke =>
    rw [Lib.Code.step_poke hst]
    unfold MediaOk at h ⊢
    simp only [Lib.Code.events_append, Lib.Code.events_poke, Lib.Code.events_nil, List.append_nil]
    exact ⟨h.1, fun m hrep hw => absurd hw (invalidate_ne_writing _)⟩

/-- **Persisted progress is not ahead of the flash**, over any number of boots and power losses, if
every session begins without a record. -/
theorem record_not_ahead (h : Powered (α := α) Board.TargetFits Recordless m) : m.NotAhead := by
  induction h with
  | new => exact notAhead_recordless rfl
  | @loss B m₀ m x es _ hB hrun hpre hrep ih =>
    have hinv := hrun.invariant (I := fun x => (sinkSystem α B).Reach x ∧ MediaOk m₀ x)
      (fun l x x' hx hc hst => ⟨.step l hx.1 hst, hx.2.step hB hx.1 hc hst⟩)
      ⟨.init rfl, .init ih⟩
    exact hinv.2.1 es m hpre hrep

/-- The open of a session of two sectors. -/
def openTwo : Lib.Move (SinkCall UInt8) := okCall (.sessionOpen (some ⟨8192, false⟩))

/-- The write of its first sector. -/
def writeOne : List (Lib.Move (SinkCall UInt8)) :=
  [okCall (.write 1 (some (List.replicate 4096 0))), .run, .run]

/-- The calls of the IDF and of the store after them, for the data of the sector. -/
def eventsOne (data : List UInt8) : List (Ev UInt8) :=
  [.otaBegin ⟨"ota_1", 0x1C0000⟩ 8192 1 espOk,
    .fire (.sessionStart ⟨1, "ota_1", 8192, 0, 0, false⟩),
    .otaWrite 1 data espOk,
    .fire (.progress ⟨1, "ota_1", 8192, 4096, 1, false⟩), .progressSave 8192 4096 1 espOk]

/-- The media after them. -/
def mediaOne : Media :=
  ⟨some (OtaProgress.blob ⟨8192, 4096, 1⟩), some ⟨8192, 1, 0x1C0000, 4096⟩⟩

theorem eventsOne_media {data : List UInt8} (hlen : data.length = 4096) :
    MediaReplay (eventsOne data) .blank mediaOne := by
  have hslot : mediaOne = ⟨mediaOne.nvs, some ⟨8192, 1, 0x1C0000, 0 + data.length⟩⟩ := by
    rw [hlen]
    rfl
  have hle : 0 + data.length ≤ 0x1C0000 := by
    rw [hlen]
    decide
  rw [hslot]
  exact .cons .began (.cons .fired (.cons (.wrote rfl rfl hle)
    (.cons .fired (.cons (.saved .allOk rfl) (.nil _)))))

theorem mediaOne_record : record mediaOne.nvs = some ⟨8192, 4096, 1⟩ := by
  decide

set_option maxRecDepth 20000 in
theorem record_not_ahead_mediaOne :
    record mediaOne.nvs = some ⟨8192, 4096, 1⟩ ∧ mediaOne.NotAhead := by
  have hw : ∀ l ∈ writeOne, ∀ x, Recordless .otaSlots .blank x l := by
    intro l hl x o ho hb
    obtain ⟨_, _, h, -⟩ := hb
    subst ho
    simp only [writeOne, List.mem_cons, List.not_mem_nil, or_false, reduceCtorEq] at hl
    cases hl
    cases h
  have hfirst : Recordless .otaSlots .blank (sinkInit (α := UInt8)) openTwo := by
    intro _ _ _ m hr
    cases hr
    rfl
  have hrun : (sinkSystem UInt8 .otaSlots).Run (Recordless .otaSlots .blank) sinkInit
      ((sinkSystem UInt8 .otaSlots).run (openTwo :: writeOne) sinkInit) :=
    .head openTwo hfirst rfl (Lib.Lts.exec_run_forall hw rfl)
  have hev : eventsOne (List.replicate 4096 0) =
      events ((sinkSystem UInt8 .otaSlots).run (openTwo :: writeOne) sinkInit).log := rfl
  have hrep : MediaReplay (events ((sinkSystem UInt8 .otaSlots).run (openTwo :: writeOne)
      sinkInit).log) .blank mediaOne := by
    rw [← hev]
    exact eventsOne_media List.length_replicate
  have hfits : Board.otaSlots.TargetFits := by
    rintro t ⟨⟩
    decide
  have hp : Powered (α := UInt8) Board.TargetFits Recordless mediaOne :=
    .loss .new hfits hrun (List.prefix_refl _) hrep
  exact ⟨mediaOne_record, record_not_ahead hp⟩

/-- A session is aborted after its first sector, and the next one begins: the record of the first
one stays, and its sector is erased. -/
def retried : List (Lib.Move (SinkCall UInt8)) :=
  openTwo :: writeOne ++ [okCall (.sessionAbort 1), openTwo]

set_option maxRecDepth 20000 in
theorem forgotten_record :
    ¬∀ m, Powered (α := UInt8) (· = .otaSlots) (fun _ _ _ _ => True) m → m.NotAhead := by
  intro h
  have hrun : (sinkSystem UInt8 .otaSlots).Run (fun _ _ => True) sinkInit
      ((sinkSystem UInt8 .otaSlots).run retried sinkInit) :=
    Lib.Lts.exec_run_forall (fun (_ : Lib.Move (SinkCall UInt8)) _ _ => trivial)
      (rfl : (sinkSystem UInt8 .otaSlots).exec retried sinkInit = some _)
  have hev : eventsOne (List.replicate 4096 0) ++
      [.otaAbort 1, .otaBegin ⟨"ota_1", 0x1C0000⟩ 8192 2 espOk,
        .fire (.sessionStart ⟨2, "ota_1", 8192, 0, 0, false⟩)] =
      events ((sinkSystem UInt8 .otaSlots).run retried sinkInit).log := rfl
  have hrep : MediaReplay (events ((sinkSystem UInt8 .otaSlots).run retried sinkInit).log) .blank
      ⟨mediaOne.nvs, some ⟨8192, 2, 0x1C0000, 0⟩⟩ := by
    rw [← hev]
    exact Lib.replay_append.mpr ⟨mediaOne, eventsOne_media List.length_replicate,
      .cons .aborted (.cons .began (.cons .fired (.nil _)))⟩
  obtain ⟨-, slot, hs, -, hle⟩ :=
    (h _ (.loss .new rfl hrun (List.prefix_refl _) hrep)).record mediaOne_record
  cases hs
  exact absurd hle (by decide)

end BleOta
