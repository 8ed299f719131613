import BleOta.Device.Invariant

/-!
# Bytes of an earlier Start

The Start with the number `i` (from 0) moves the clock from `2 * i` to `2 * i + 1` at its first
effect and to `2 * i + 2` at its last. `NoStale`: a byte that entered the ring before a Start is
never written on a handle that was begun after the end of its callback.

* `no_stale_run`: `NoStale` holds in every run where each Start callback ends with an empty ring
  and a pump that has no item with which it may still open a session (`StartCond`).
* `stale_write`: a run where a byte of the first transfer is written to the image of the second.

The invariant (`StaleOk`) is about the number of the Start of a byte (`born / 2`): the ring, and
an item that may open a session, have the present one; an item for an open session has at least
the one of the session.
-/

namespace BleOta

open Lib (Ring)

namespace Device

/-- The handle `h` was begun at the clock `k`. -/
def BegunAt (log : List (Nat × DevEv)) (k h : Nat) : Prop :=
  ∃ target size, (k, .sink (.ev (.otaBegin target size h espOk))) ∈ log

/-- No byte of the time before a Start is written on a handle of the time after it. -/
def NoStale (log : List (Nat × DevEv)) : Prop :=
  ∀ i kb kw h data err c, BegunAt log kb h →
    (kw, .sink (.ev (.otaWrite h data err))) ∈ log → c ∈ data → c.born ≤ 2 * i → kb < 2 * i + 2

/-- The condition of a step: at the end of a Start callback the ring is empty, and the pump has no
item with which it may still open a session. -/
def StartCond (d : Device) : DevLabel → Prop
  | .nimble _ => d.nimble = .startInvalidate → d.ring.queue = [] ∧ ¬d.pump.MayOpen
  | _ => True

/-- The invariant (module doc). -/
structure StaleOk (d : Device) : Prop where
  queue : ∀ c ∈ d.ring.queue, c.born / 2 = d.clock / 2
  item : d.pump.MayOpen → ∀ c ∈ d.pump.data, c.born / 2 = d.clock / 2
  opened : ¬d.pump.MayOpen → ∀ k h, BegunAt d.log k h → ∀ c ∈ d.pump.data, k / 2 ≤ c.born / 2
  written : ∀ k h kw data err, BegunAt d.log k h →
    (kw, .sink (.ev (.otaWrite h data err))) ∈ d.log → ∀ c ∈ data, k / 2 ≤ c.born / 2

variable {B : Board} {d d' : Device} {l : DevLabel}

/-- A step that does not call the IDF; the item that the pump has after it is the one from before,
or new in its hands. -/
theorem StaleOk.keep (h : StaleOk d) (hd : HistoryOk d)
    (hl : ∀ k e, (k, .sink (.ev e)) ∈ d'.log → (k, .sink (.ev e)) ∈ d.log)
    (hq : ∀ c ∈ d'.ring.queue, c.born / 2 = d'.clock / 2)
    (hi : d'.pump.MayOpen → ∀ c ∈ d'.pump.data, c.born / 2 = d'.clock / 2)
    (ho : ¬d'.pump.MayOpen → ∀ c ∈ d'.pump.data,
      c ∈ d.pump.data ∧ ¬d.pump.MayOpen ∨ c.born / 2 = d.clock / 2) : StaleOk d' where
  queue := hq
  item := hi
  opened hm k hh := by
    rintro ⟨t, n, hb⟩ c hc
    rcases ho hm c hc with ⟨hc, hm⟩ | hc
    · exact h.opened hm k hh ⟨t, n, hl _ _ hb⟩ c hc
    · have := hd.stamp _ (hl _ _ hb)
      simp only at this
      omega
  written k hh kw data err := by
    rintro ⟨t, n, hb⟩ hw
    exact h.written k hh kw data err ⟨t, n, hl _ _ hb⟩ (hl _ _ hw)

/-- A section of the sink. The bytes that it writes are the item of the pump, and a session that it
begins has the number of the present Start. -/
theorem StaleOk.section {o : SinkCall Cell} {p : Option (Pc Cell)} {es : List (SinkEntry Cell)}
    {out : Out Cell} (h : StaleOk d) (hr : (system B).Reach d) (hes : ∀ ev, .ev ev ∉ es)
    (hs : Sect B o p d.sink out) (hp : ∀ pc, p = some pc → d.pump.pc = .inSink o pc)
    (hop : ∀ cfg, p = none → o.1 = .sessionOpen cfg → d.pump.MayOpen) :
    StaleOk (d.doSection o es out) := by
  have hd := HistoryOk.reach hr
  have hbegun : ∀ k hh, BegunAt (d.doSection o es out).log k hh →
      BegunAt d.log k hh ∨ k = d.clock ∧ d.pump.MayOpen ∧ hh = d.sink.handles + 1 := by
    rintro k hh ⟨t, n, hb⟩
    rcases (mem_doSection hes).mp hb with hold | ⟨hk, hnew⟩
    · exact .inl ⟨t, n, hold⟩
    · obtain ⟨⟨cfg, ho, -⟩, hn, -, hh, -⟩ := hs.otaBegin hnew
      exact .inr ⟨hk, hop _ hn ho, hh⟩
  have hwrote : ∀ k hh data err, (k, .sink (.ev (.otaWrite hh data err))) ∈
      (d.doSection o es out).log → (k, .sink (.ev (.otaWrite hh data err))) ∈ d.log ∨
        data = d.pump.data := by
    intro k hh data err hw
    rcases (mem_doSection hes).mp hw with hw | ⟨-, hw⟩
    · exact .inl hw
    · obtain ⟨⟨e, hpc⟩, -, -⟩ := hs.otaWrite hw
      exact .inr (flash_item hr (hp _ hpc)).2.2.1
  -- An item that may open a session has the number of the present Start, so none is newer.
  have hopened : ∀ k hh, BegunAt (d.doSection o es out).log k hh →
      ∀ c ∈ d.pump.data, k / 2 ≤ c.born / 2 := by
    intro k hh hb c hc
    by_cases hm : d.pump.MayOpen
    · have hk : k ≤ d.clock := by
        rcases hbegun k hh hb with ⟨t, n, hb⟩ | ⟨rfl, -⟩
        · exact hd.stamp _ hb
        · exact Nat.le_refl _
      have := h.item hm c hc
      omega
    · rcases hbegun k hh hb with hb | ⟨-, hm', -⟩
      · exact h.opened hm k hh hb c hc
      · exact absurd hm' hm
  refine ⟨h.queue, fun hm => absurd hm.beforeOpen (d.pump.after_beforeOpen _ _),
    fun _ k hh hb c hc => ?_, ?_⟩
  · exact hopened k hh hb c (by simpa [doSection] using hc)
  · intro k hh kw data err hb hw c hc
    rcases hwrote kw hh data err hw with hw | rfl
    · rcases hbegun k hh hb with hb | ⟨-, -, rfl⟩
      · exact h.written k hh kw data err hb hw c hc
      · have := device_written_le hr hw
        omega
    · exact hopened k hh hb c hc

/-- The item stays as it is, where it can open nothing. -/
theorem item_kept (d : Device) (hm : ¬d.pump.MayOpen) :
    ∀ c ∈ d.pump.data, c ∈ d.pump.data ∧ ¬d.pump.MayOpen ∨ c.born / 2 = d.clock / 2 :=
  fun _ hc => .inl ⟨hc, hm⟩

/-- The events leave the bytes alone. -/
theorem StaleOk.ble {e : BleEvent} (h : StaleOk d) (hd : d.HistoryOk)
    (hst : d.bleStep e = some d') : StaleOk d' := by
  cases bleStep_act (B := .otaSlots) hst with
  | reply hn ho =>
    refine h.keep hd (fun k e hm => mem_emit_sink (fun hx => ?_) hm) h.queue h.item (item_kept d)
    obtain ⟨f, -, hx⟩ := List.mem_flatMap.mp hx
    exact sink_not_mem_notified hx
  | start hn | stop hn =>
    exact h.keep hd (fun k e hm => mem_emit_sink sink_not_mem_notified hm) h.queue h.item
      (item_kept d)
  | otherCommand | subscribe | disconnect | sectorEnd hn =>
    exact h.keep hd (fun _ _ => id) h.queue h.item (item_kept d)

/-- The callbacks: what the ring takes is of the present Start, and the end of a Start meets the
condition. -/
theorem StaleOk.nimble {n : Nat} (h : StaleOk d) (hd : d.HistoryOk) (hc : StartCond d (.nimble n))
    (hst : d.nimbleStep n = some d') : StaleOk d' := by
  have hnotified : ∀ {c frame sector e₁ k e}, (∀ e, e₁ ≠ .sink e) →
      (k, .sink (.ev e)) ∈ (d.emit (e₁ :: d.notified c frame sector)).log →
      (k, .sink (.ev e)) ∈ d.log := by
    intro c frame sector e₁ k e h₁ hm
    refine mem_emit_sink (fun hx => ?_) hm
    rcases List.mem_cons.mp hx with hx | hx
    · exact h₁ _ hx.symm
    · exact sink_not_mem_notified hx
  cases nimbleStep_act (B := .otaSlots) hst with
  | recvPass hn | startUnblock hn | flushDone hn | stopDisarm hn =>
    exact h.keep hd (fun _ _ => id) h.queue h.item (item_kept d)
  | recvRefuse | sendFull =>
    exact h.keep hd (fun _ _ => hnotified (by simp)) h.queue h.item (item_kept d)
  | sendOk hn hs =>
    obtain ⟨-, hq, -⟩ := Ring.send_eq_some hs
    refine h.keep hd (fun _ _ => hnotified (by simp)) (fun c hc => ?_) h.item (item_kept d)
    rcases List.mem_append.mp (hq ▸ hc) with hc | hc
    · exact h.queue c hc
    · simp only [cells, List.mem_map] at hc
      obtain ⟨b, -, rfl⟩ := hc
      rfl
  | startArm hn =>
    have hodd : (d.clock + 1) / 2 = d.clock / 2 := by
      have : d.clock % 2 ≠ 1 := fun h => by simpa [hn, NimblePc.InStart] using hd.odd.mp h
      omega
    refine h.keep hd (fun _ _ => id) ?_ ?_ (item_kept d)
    · exact hodd ▸ h.queue
    · exact hodd ▸ h.item
  | startInvalidate hn =>
    obtain ⟨hq, hm⟩ := hc hn
    refine h.keep hd (fun k e hx => mem_emit_sink (by simp) hx) ?_ (fun hx => absurd hx hm)
      (item_kept d)
    simp [hq]
  | flushTake hn hrc =>
    obtain ⟨-, hq, -, -⟩ := Ring.receive_eq_some hrc
    exact h.keep hd (fun _ _ => id) (fun c hc => h.queue c (hq ▸ List.mem_append_right _ hc))
      h.item (item_kept d)
  | flushReturn hn =>
    exact h.keep hd (fun k e hx => mem_emit_sink (by simp) hx) h.queue h.item (item_kept d)

/-- The pump: what it takes from the ring may open a session. -/
theorem StaleOk.pump {n : Nat} {idf : Idf} (h : StaleOk d) (hr : (system B).Reach d)
    (hst : d.pumpStep B n idf = some d') : StaleOk d' := by
  have hd := HistoryOk.reach hr
  have hopen : d.pump.MayOpen → ∀ c ∈ d.pump.data,
      c ∈ d.pump.data ∧ ¬d.pump.MayOpen ∨ c.born / 2 = d.clock / 2 :=
    fun hm c hc => .inr (h.item hm c hc)
  cases pumpStep_act hst with
  | @take n idf item ring hpc hrc =>
    obtain ⟨-, hq, -, -⟩ := Ring.receive_eq_some hrc
    have hnew : ∀ c ∈ item, c.born / 2 = d.clock / 2 :=
      fun c hc => h.queue c (hq ▸ List.mem_append_left _ hc)
    exact h.keep hd (fun _ _ => id) (fun c hc => h.queue c (hq ▸ List.mem_append_right _ hc))
      (fun _ => hnew) (fun _ c hc => .inr (hnew c hc))
  | timesOut hpc | timeoutAbort hpc | timeoutBack hpc | zeroBlock hpc | failBlock hpc =>
    exact h.keep hd (fun _ _ => id) h.queue (fun hm => by cases hm)
      (fun _ => item_kept d (by simp [Pump.MayOpen, hpc]))
  | emptyItem hpc hz =>
    exact h.keep hd (fun _ _ => id) h.queue (fun hm => by cases hm) (by simp [hz])
  | lazyOpen hpc hne he =>
    have hm : d.pump.MayOpen := by simp [Pump.MayOpen, hpc, he]
    exact h.keep hd (fun _ _ => id) h.queue (fun _ => h.item hm) (fun _ => hopen hm)
  | toWrite hpc hne he =>
    exact h.keep hd (fun _ _ => id) h.queue (fun hm => by cases hm)
      (fun _ => item_kept d (by simp [Pump.MayOpen, hpc, he]))
  | unarmed hpc hne he =>
    exact h.keep hd (fun _ _ => id) h.queue (fun hm => by cases hm)
      (fun _ => hopen (by simp [Pump.MayOpen, hpc, he]))
  | zero hpc =>
    exact h.keep hd (fun _ _ => id) h.queue (fun hm => by cases hm)
      (fun _ => hopen (by simp [Pump.MayOpen, hpc]))
  | length hpc =>
    have hm : d.pump.MayOpen := by simp [Pump.MayOpen, hpc]
    exact h.keep hd (fun _ _ => id) h.queue (fun _ => h.item hm) (fun _ => hopen hm)
  | giveBack | wroteFail =>
    exact h.keep hd (fun k e hx => mem_emit_sink (by simp) hx) h.queue (fun hm => by cases hm)
      (by simp)
  | wroteOk hpc =>
    refine h.keep hd (fun _ _ => id) h.queue (fun _ => by simp) (by simp)
  | calls hcall _ hs =>
    refine h.section hr (by simp) hs (fun _ hx => by cases hx) (fun cfg _ ho => ?_)
    rcases d.pump.callOf_cases hcall with ⟨_, hp, rfl⟩ | ⟨hp, rfl⟩ | ⟨hp, rfl⟩ | ⟨hp, rfl⟩ |
      ⟨hp, rfl⟩ <;> cases ho
    simp [Pump.MayOpen, hp]
  | sections hpc _ hs =>
    exact h.section hr (by simp) hs (fun _ hx => by cases hx; exact hpc) (fun _ hx => by cases hx)

/-- **A step that meets the condition** keeps the invariant. -/
theorem StaleOk.step (h : StaleOk d) (hr : (system B).Reach d) (hc : StartCond d l)
    (hst : (system B).step l d = some d') : StaleOk d' := by
  cases l with
  | ble e => exact h.ble (HistoryOk.reach hr) hst
  | nimble n => exact h.nimble (HistoryOk.reach hr) hc hst
  | pump n idf => exact h.pump hr hst

theorem StaleOk.init : StaleOk .init :=
  ⟨by simp [Device.init], by simp [Device.init], by simp [Device.init], by simp [Device.init]⟩

/-- **No stale byte enters a new session** in a run whose steps meet `StartCond`. -/
theorem no_stale_run (h : (system B).Run StartCond .init d) : NoStale d.log := by
  have hi : (system B).Reach d ∧ StaleOk d := by
    refine h.invariant (I := fun d => (system B).Reach d ∧ StaleOk d)
      (fun l s s' hi hc hst => ⟨.step l hi.1 hst, hi.2.step hi.1 hc hst⟩) ⟨.init rfl, .init⟩
  intro i kb kw hh data err c hb hw hc hborn
  have := hi.2.written kb hh kw data err hb hw c hc
  omega

theorem no_stale_run_writtenSector :
    (system .otaSlots).Run StartCond .init ((system .otaSlots).run writtenSector .init) ∧
      NoStale ((system .otaSlots).run writtenSector .init).log := by
  have hm : (system .otaSlots).Meets StartCond writtenSector .init :=
    ⟨trivial, _, rfl, by rintro ⟨⟩, _, rfl, by rintro ⟨⟩, _, rfl, by rintro ⟨⟩, _, rfl,
      fun _ => ⟨rfl, id⟩, _, rfl, trivial, _, rfl, by rintro ⟨⟩, _, rfl, by rintro ⟨⟩, _, rfl,
      trivial, _, rfl, trivial, _, rfl, trivial, _, rfl, trivial, _, rfl, trivial, _, rfl,
      trivial, _, rfl, trivial⟩
  have hr : (system .otaSlots).Run StartCond .init
      ((system .otaSlots).run writtenSector .init) := Lib.Lts.exec_run hm rfl
  exact ⟨hr, no_stale_run hr⟩

/-- The pump has received two bytes of the first Start and not tested its epoch when the second
Start runs: its flush finds an empty ring, and the pump opens the new session with the old bytes. -/
def staleItem : List DevLabel :=
  startCommand 2 :: startCallback ++ wholePacket 0 [1, 2] :: recvCallback ++ pumpSteps 1 ++
    startCommand 8 :: startCallback ++ pumpSteps 5

/-- The bytes of the first Start are in the image of the second. -/
theorem stale_write : ¬∀ d, (system .otaSlots).Reach d → NoStale d.log := by
  intro h
  have hns := h _ (Lib.Lts.run_reach (.init rfl) staleItem)
  generalize hlog : ((system .otaSlots).run staleItem .init).log = log at hns
  have hb : log[4]? = some (4, .sink (.ev (.otaBegin ⟨"ota_1", 0x1C0000⟩ 8 1 espOk))) :=
    hlog ▸ rfl
  have hw : log[8]? = some (4, .sink (.ev (.otaWrite 1 [⟨1, 2⟩, ⟨2, 2⟩] espOk))) := hlog ▸ rfl
  have := hns 1 4 4 1 _ _ ⟨1, 2⟩ ⟨_, _, List.mem_of_getElem? hb⟩ (List.mem_of_getElem? hw)
    (List.mem_cons_self ..) (Nat.le_refl _)
  omega

end Device

end BleOta
