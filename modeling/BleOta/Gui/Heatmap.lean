import BleOta.Host.Events

/-!
# The heat map of a transfer (`Heatmap` of `host/ble_ota_gui.py`)

The GUI has a cell for each sector. `_dispatch_proto` colours them by the events of `send_sector`,
which it takes from the queue in order, some time after they were emitted. The loop of `op_flash`
over the sectors is that of `run_flash`; Stop only ends it earlier.

* `Drawn`: the cells, the attempts and the counter of the timeouts when the transfer is at the
  sector `k`. `Drawn.step`: what a step tells keeps it.
* `Lags`: any part of the events shows a part of the sectors.
* `heat_exact`: whatever is lost or late, and however far the GUI has come, the cells up to some
  sector are `ok`, the component has delivered these sectors, and no cell after the next one has a
  colour; after a transfer that ends well every cell is `ok`.
-/

namespace BleOta.Gui

open Host

/-- The states of a cell. -/
inductive CellState where
  | idle
  | sent
  | ok
  | jump
  | retry
  deriving DecidableEq, Repr

/-- `Heatmap`, less its drawing. -/
structure Heatmap where
  states : List CellState
  attempts : List Nat
  same : attempts.length = states.length
  deriving DecidableEq, Repr

namespace Heatmap

/-- `set_n`. -/
def setN (n : Nat) : Heatmap := ⟨List.replicate n .idle, List.replicate n 0, by simp⟩

/-- `set_state`: a sector without a cell changes nothing. -/
def setState (sector : Nat) (state : CellState) (m : Heatmap) : Heatmap :=
  ⟨m.states.set sector state, m.attempts, by simp [m.same]⟩

/-- `bump_attempt`. -/
def bumpAttempt (sector : Nat) (m : Heatmap) : Heatmap :=
  ⟨m.states, m.attempts.modify sector (· + 1), by simp [m.same]⟩

/-- `_dispatch_proto`: what an event does to the heat map. -/
def dispatchProto (m : Heatmap) : ProtoEvent → Heatmap
  | .sectorSent sector _ => m.setState sector .sent
  | .sectorAck sector _ => m.setState sector .ok
  | .sectorJump sent _ => m.setState sent .jump
  | .ackTimeout sector _ _ => (m.bumpAttempt sector).setState sector .retry
  | .packet _ | .ackBadFrame .. | .ackCrcMismatch .. | .ackUnknown .. => m

end Heatmap

/-- The heat map of `n` sectors after the events. -/
def heat (n : Nat) (es : List ProtoEvent) : Heatmap := es.foldl .dispatchProto (.setN n)

/-! ## The cells -/

/-- The state of the cell `i` when the ones before `k` are `ok` and the cell `k` is `c`. -/
def cellAt (k : Nat) (c : CellState) (i : Nat) : CellState :=
  if i < k then .ok else if i = k then c else .idle

/-- All cells. -/
def Cells (n k : Nat) (c : CellState) (m : Heatmap) : Prop :=
  m.states = (List.range n).map (cellAt k c)

/-- The attempts: those of the sector `k` are `a`, and there are none after it. -/
structure Tries (k a : Nat) (m : Heatmap) : Prop where
  before : ∀ i b, i < k → m.attempts[i]? = some b → b < ackRetries
  here : ∀ b, m.attempts[k]? = some b → b = a
  after : ∀ i b, k < i → m.attempts[i]? = some b → b = 0

/-- The state and the attempts of the cell that the transfer is at. -/
inductive Mark : CellState → Nat → Prop
  | idle : Mark .idle 0
  | sent : Mark .sent 0
  | retry {a : Nat} : 0 < a → a < ackRetries → Mark .retry a

/-- The heat map and the counter of the timeouts, for a transfer at the sector `k`. -/
structure Drawn (n k : Nat) (g : TransferStage) (st : Stats) (m : Heatmap) : Prop where
  cell : ∃ c a, Mark c a ∧ Cells n k c m ∧ Tries k a m ∧ (g = .between → c = .idle) ∧
    ∀ b, g = .sending b → a = b
  retries : st.tailRetries = m.attempts.sum + if g = .finished false then 1 else 0

variable {n k k' a : Nat} {c : CellState} {g g' : TransferStage} {st : Stats} {out : Emits}
  {es : List ProtoEvent} {m : Heatmap}

theorem Mark.lt (h : Mark c a) : a < ackRetries := by
  cases h with
  | idle | sent => decide
  | retry _ ha => exact ha

theorem Cells.set (h : Cells n k c m) (c' : CellState) : Cells n k c' (m.setState k c') := by
  refine List.ext_getElem? fun i => ?_
  have hm : m.states = (List.range n).map (cellAt k c) := h
  show (m.states.set k c')[i]? = _
  rw [List.getElem?_set, hm]
  by_cases hi : k = i
  · subst hi
    by_cases hk : k < n <;> simp [cellAt, hk]
  · have hi' : ¬i = k := fun h => hi h.symm
    by_cases hn : i < n <;> simp [cellAt, hi, hi', hn]

/-- The next sector. -/
theorem Cells.next (h : Cells n k .ok m) : Cells n (k + 1) .idle m := by
  refine h.trans (congrArg (List.map · _) (funext fun i => ?_))
  unfold cellAt
  by_cases hlt : i < k
  · rw [if_pos hlt, if_pos (by omega)]
  · by_cases hi : i = k
    · rw [if_neg hlt, if_pos hi, if_pos (by omega)]
    · rw [if_neg hlt, if_neg hi, if_neg (by omega), ite_self]

theorem Cells.full (h : Cells n n c m) : m.states = List.replicate n .ok := by
  rw [h]
  refine List.eq_replicate_iff.mpr ⟨by simp, fun x hx => ?_⟩
  obtain ⟨i, hi, rfl⟩ := List.mem_map.mp hx
  exact if_pos (List.mem_range.mp hi)

theorem Cells.length (h : Cells n k c m) : m.attempts.length = n := by
  rw [m.same, h, List.length_map, List.length_range]

/-- One more attempt for the sector. -/
theorem Tries.bump (h : Tries k a m) : Tries k (a + 1) (m.bumpAttempt k) := by
  have hget (i : Nat) : (m.bumpAttempt k).attempts[i]? =
      if k = i then m.attempts[i]?.map (· + 1) else m.attempts[i]? := by
    show (m.attempts.modify k (· + 1))[i]? = _
    rw [List.getElem?_modify]
    split <;> simp
  refine ⟨fun i b hi hb => ?_, fun b hb => ?_, fun i b hi hb => ?_⟩
  · rw [hget, if_neg (by omega)] at hb
    exact h.before i b hi hb
  · rw [hget, if_pos rfl] at hb
    obtain ⟨b', hb', rfl⟩ := Option.map_eq_some_iff.mp hb
    rw [h.here b' hb']
  · rw [hget, if_neg (by omega)] at hb
    exact h.after i b hi hb

theorem Tries.next (h : Tries k a m) (ha : a < ackRetries) : Tries (k + 1) 0 m := by
  refine ⟨fun i b hi hb => ?_, fun b hb => h.after _ b (Nat.lt_succ_self k) hb,
    fun i b hi hb => h.after i b (by omega) hb⟩
  rcases Nat.lt_succ_iff_lt_or_eq.mp hi with hlt | rfl
  · exact h.before i b hlt hb
  · rw [h.here b hb]
    exact ha

theorem sum_modify {l : List Nat} {i : Nat} (hi : i < l.length) :
    (l.modify i (· + 1)).sum = l.sum + 1 := by
  induction l generalizing i with
  | nil => cases hi
  | cons x l ih =>
    cases i with
    | zero =>
      simp
      omega
    | succ i =>
      have := ih (Nat.lt_of_succ_lt_succ hi)
      simp [this]
      omega

/-! ## The steps -/

theorem heat_snoc (es es' : List ProtoEvent) :
    heat n (es ++ es') = es'.foldl .dispatchProto (heat n es) := List.foldl_append

/-- **What a step tells** keeps the heat map drawn. -/
theorem Drawn.step (h : Drawn n k g st m) (hg : g.Ok n k) (ht : Tells n st k g k' g' out) :
    Drawn n k' g' out.1 (out.2.foldl .dispatchProto m) := by
  obtain ⟨⟨c, a, hmark, hcells, htries, hbetween, hsending⟩, hsum⟩ := h
  cases ht with
  | quiet => exact ⟨⟨c, a, hmark, hcells, htries, hbetween, hsending⟩, hsum⟩
  | begins hlt =>
    obtain rfl := hbetween rfl
    cases hmark with
    | idle =>
      exact ⟨⟨.sent, 0, .sent, hcells.set .sent, ⟨htries.before, htries.here, htries.after⟩,
        by rintro ⟨⟩, fun b hb => by cases hb; rfl⟩, hsum⟩
  | ends =>
    exact ⟨⟨c, a, hmark, hcells, htries, by rintro ⟨⟩, by rintro b ⟨⟩⟩, hsum⟩
  | packet => exact ⟨⟨c, a, hmark, hcells, htries, by rintro ⟨⟩, hsending⟩, hsum⟩
  | raises => exact ⟨⟨c, a, hmark, hcells, htries, by rintro ⟨⟩, by rintro b ⟨⟩⟩, hsum⟩
  | @retries b hb =>
    obtain rfl := hsending b rfl
    have hk : k < m.attempts.length := hcells.length ▸ (hg.sending _ rfl).1
    refine ⟨⟨.retry, a + 1, .retry (Nat.succ_pos a) hb, ?_, ?_, by rintro ⟨⟩,
      fun b hb => by cases hb; rfl⟩, ?_⟩
    · exact Cells.set (m := m.bumpAttempt k) hcells .retry
    · have hbump := htries.bump
      exact ⟨hbump.before, hbump.here, hbump.after⟩
    · show st.tailRetries + 1 = (m.attempts.modify k (· + 1)).sum + 0
      rw [sum_modify hk, hsum]
      rfl
  | givesUp =>
    refine ⟨⟨c, a, hmark, hcells, htries, by rintro ⟨⟩, by rintro b ⟨⟩⟩, ?_⟩
    show st.tailRetries + 1 = m.attempts.sum + 1
    rw [hsum]
    rfl
  | acks =>
    have htries' := htries.next hmark.lt
    refine ⟨⟨.idle, 0, .idle, (hcells.set .ok).next,
      ⟨htries'.before, htries'.here, htries'.after⟩, fun _ => rfl, by rintro b ⟨⟩⟩, ?_⟩
    exact hsum

/-- A part of the events shows a part of the sectors. -/
def Lags (n k : Nat) (es : List ProtoEvent) : Prop :=
  ∀ es', es' <+: es → ∃ j c a, j ≤ k ∧ Mark c a ∧ Cells n j c (heat n es')

theorem Lags.step (h : Lags n k es) (hd : Drawn n k' g' out.1 (heat n (es ++ out.2)))
    (ht : Tells n st k g k' g' out) : Lags n k' (es ++ out.2) := by
  have hk : k ≤ k' := by
    cases ht with
    | acks => exact Nat.le_succ k
    | quiet | begins | ends | packet | raises | retries | givesUp => exact Nat.le_refl k
  have hone : out.2 = [] ∨ ∃ e, out.2 = [e] := by
    cases ht with
    | quiet | ends | raises | givesUp => exact .inl rfl
    | begins | packet | retries | acks => exact .inr ⟨_, rfl⟩
  have hold {es' : List ProtoEvent} (he : es' <+: es) :
      ∃ j c a, j ≤ k' ∧ Mark c a ∧ Cells n j c (heat n es') := by
    obtain ⟨j, c, a, hj, hm, hc⟩ := h es' he
    exact ⟨j, c, a, hj.trans hk, hm, hc⟩
  intro es' he
  rcases hone with hnil | ⟨e, hone⟩
  · rw [hnil, List.append_nil] at he
    exact hold he
  · rw [hone] at he hd
    rcases List.prefix_concat_iff.mp he with rfl | he
    · obtain ⟨c, a, hm, hc, -⟩ := hd.cell
      exact ⟨k', c, a, Nat.le_refl k', hm, hc⟩
    · exact hold he

/-! ## All runs -/

theorem Drawn.init : Drawn n 0 .between ⟨0, 0, 0, 0⟩ (heat n []) := by
  have hzero (i b : Nat) (hb : (List.replicate n 0)[i]? = some b) : b = 0 :=
    List.eq_of_mem_replicate (List.mem_of_getElem? hb)
  refine ⟨⟨.idle, 0, .idle, ?_, ⟨fun i b hi => by omega, fun b hb => hzero 0 b hb,
    fun i b _ hb => hzero i b hb⟩, fun _ => rfl, by rintro b ⟨⟩⟩, ?_⟩
  · refine List.ext_getElem (by simp [heat, Heatmap.setN]) fun i hi hi' => ?_
    simp [heat, Heatmap.setN, cellAt]
  · show 0 = (List.replicate n 0).sum + 0
    simp

theorem Lags.init : Lags n 0 [] := by
  intro es' he
  obtain rfl := List.prefix_nil.mp he
  obtain ⟨⟨c, a, hmark, hcells, -⟩, -⟩ := Drawn.init (n := n)
  exact ⟨0, c, a, Nat.le_refl 0, hmark, hcells⟩

theorem firstSectors_mono {fw : List UInt8} {j : Nat} (h : j ≤ k) :
    firstSectors fw j <+: firstSectors fw k := by
  induction h with
  | refl => exact List.prefix_rfl
  | step _ ih => exact ih.trans (firstSectors_succ ▸ List.prefix_append _ _)

/-- What the heat map shows is true: the cells up to some sector are `ok`, the component has
delivered these sectors, and no cell after the next one has a colour. -/
def Shows (fw : List UInt8) (delivered : List (List UInt8)) (m : Heatmap) : Prop :=
  ∃ j c a, Mark c a ∧ Cells (totalSectors fw) j c m ∧ firstSectors fw j <+: delivered

variable {fw : List UInt8} {mtuSize : Nat} {x : Observed}

theorem drawn_reach (hmtu : 23 ≤ mtuSize) (htotal : totalSectors fw < 65536)
    (hr : (observed fw mtuSize).Reach x) :
    x.net.host.pc.stage.Ok (totalSectors fw) x.net.host.current ∧
      Drawn (totalSectors fw) x.net.host.current x.net.host.pc.stage x.stats
        (heat (totalSectors fw) x.events) ∧
      Lags (totalSectors fw) x.net.host.current x.events := by
  refine observed_invariant (I := fun k g st es =>
    Drawn (totalSectors fw) k g st (heat (totalSectors fw) es) ∧ Lags (totalSectors fw) k es)
    hmtu htotal ⟨.init, .init⟩ (fun {k g st es k' g' out} hg h ht => ?_) hr
  have hd : Drawn (totalSectors fw) k' g' out.1 (heat (totalSectors fw) (es ++ out.2)) := by
    rw [heat_snoc]
    exact h.1.step hg ht
  exact ⟨hd, h.2.step hd ht⟩

/-- **The heat map of a transfer**, whatever is lost or late: the events tell the acknowledgements,
the packets and the timeouts; the cells and the attempts are those of the sector that the host is
at; whatever part of the events the GUI has taken, it shows only sectors that the component has
delivered; and after a transfer that ends well all cells are `ok`, and the firmware is there. -/
theorem heat_exact (hmtu : 23 ≤ mtuSize) (htotal : totalSectors fw < 65536)
    (hr : (observed fw mtuSize).Reach x) :
    Told x.net.host.current x.stats x.events ∧
      Drawn (totalSectors fw) x.net.host.current x.net.host.pc.stage x.stats
        (heat (totalSectors fw) x.events) ∧
      (∀ es, es <+: x.events → Shows fw x.net.delivered (heat (totalSectors fw) es)) ∧
      (x.net.host.pc = .finished true →
        (heat (totalSectors fw) x.events).states = List.replicate (totalSectors fw) .ok ∧
          x.net.delivered.flatten = fw) := by
  obtain ⟨hok, hdrawn, hlags⟩ := drawn_reach hmtu htotal hr
  have hacked := acked_delivered hmtu htotal hr
  refine ⟨told_reach hmtu htotal hr, hdrawn, fun es he => ?_, fun hpc => ?_⟩
  · obtain ⟨j, c, a, hj, hmark, hcells⟩ := hlags es he
    exact ⟨j, c, a, hmark, hcells, (firstSectors_mono hj).trans hacked⟩
  · have hk : x.net.host.current = totalSectors fw := hok.finished (hpc ▸ rfl)
    have hinv := Host.Inv.reach hmtu htotal (Observed.net_reach hr)
    obtain ⟨c, a, -, hcells, -⟩ := hdrawn.cell
    rw [hk] at hcells
    unfold Host.Inv at hinv
    rw [hpc] at hinv
    exact ⟨hcells.full, hinv rfl ▸ firstSectors_total⟩

/-- A firmware of three bytes: the first write fails with a timeout, the next one arrives. -/
def retriedThreeBytes : Observed :=
  (observed [1, 2, 3] 23).run
    [.enter, .write (.down false true), .write .up, .indicate 0, .wait, .enter]
    ⟨.start [1, 2, 3] { Component.zero with otaNotification := ⟨true, true, true, true⟩ },
      ⟨0, 0, 0, 0⟩, []⟩

theorem heat_exact_threeBytes :
    (heat 1 retriedThreeBytes.events).states = [.ok] ∧
      retriedThreeBytes.net.delivered.flatten = [1, 2, 3] := by
  have hi (c : Component) :
      (observed [1, 2, 3] 23).Reach ⟨.start [1, 2, 3] c, ⟨0, 0, 0, 0⟩, []⟩ := .init ⟨c, rfl⟩
  have hr : (observed [1, 2, 3] 23).Reach retriedThreeBytes := Lib.Lts.run_reach (hi _) _
  have hpc : retriedThreeBytes.net.host.pc = .finished true := by decide +kernel
  exact (heat_exact (by decide) (by decide) hr).2.2.2 hpc

end BleOta.Gui
