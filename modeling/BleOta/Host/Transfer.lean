import BleOta.Host.Frames
import BleOta.Host.Packets

/-!
# A transfer that ends well delivers the firmware

* `Net.Act`: the ways through a step (`Net.step_act`). Proofs about all steps are by cases on it.
* `Phase`: how the host and the component stand to each other while a sector is sent. The component
  has the first packets of it (`filling`); it has some, and the host starts again (`behind`); it has
  completed it, and no more than one acknowledgement is on the way (`taken`); it has completed it,
  and the host starts again (`ahead`), which the component rejects.
* `Inv`, `Inv.step`: every step keeps it.
* `transfer_exact`: if the loop ends with `transfer_ok`, the buffers of the firmware callback are
  the sectors of the firmware, once and in order.
-/

namespace BleOta.Host

variable {fw : List UInt8} {mtuSize k : Nat} {n n' : Net} {s : SendSector}

/-- The first `k` sectors of the firmware. -/
def firstSectors (fw : List UInt8) (k : Nat) : List (List UInt8) :=
  (List.range k).map (sectorData fw)

theorem firstSectors_succ : firstSectors fw (k + 1) = firstSectors fw k ++ [sectorData fw k] := by
  simp [firstSectors, List.range_succ]

theorem firstSectors_flatten : (firstSectors fw k).flatten = fw.take (k * sectorSize) := by
  induction k with
  | zero => simp [firstSectors]
  | succ k ih =>
    rw [firstSectors_succ, List.flatten_append, ih, Nat.add_mul, Nat.one_mul, List.take_add]
    simp [sectorData]

/-- All sectors together are the firmware. -/
theorem firstSectors_total : (firstSectors fw (totalSectors fw)).flatten = fw := by
  have hle : fw.length ≤ totalSectors fw * sectorSize := by
    unfold totalSectors sectorSize
    omega
  rw [firstSectors_flatten, List.take_of_length_le hle]

/-! ## The steps -/

/-- The ways through a step. -/
inductive Net.Act (fw : List UInt8) (mtuSize : Nat) (n : Net) : NetLabel → Net → Prop
  | enter : n.host.pc = .loop → n.host.current < totalSectors fw →
      Act fw mtuSize n .enter { n with host := n.host.pass fw mtuSize n.host.current maxJumps }
  | leave : n.host.pc = .loop → totalSectors fw ≤ n.host.current →
      Act fw mtuSize n .enter { n with host := n.host.leave fw }
  | write {s : SendSector} {pkt rest link} : n.host.pc = .sending s → s.rest = pkt :: rest →
      Act fw mtuSize n (.write link) (n.writePacket fw s pkt rest link)
  | timeout {s : SendSector} : n.host.pc = .sending s → s.rest = [] → s.waiter = .expired →
      Act fw mtuSize n .wait { n with host := n.host.retry fw s }
  | frame {s : SendSector} {frame} : n.host.pc = .sending s → s.rest = [] → s.waiter = .got frame →
      Act fw mtuSize n .wait { n with host := n.host.onFrame fw mtuSize s frame }
  | expire {s : SendSector} : n.host.pc = .sending s → s.waiter = .armed →
      Act fw mtuSize n .expire
        { n with host := { n.host with pc := .sending { s with waiter := .expired } } }
  | indicate {i frame} : n.flight[i]? = some frame →
      Act fw mtuSize n (.indicate i) (.receive frame { n with flight := n.flight.eraseIdx i })
  | lose {i} : i < n.flight.length →
      Act fw mtuSize n (.lose i) { n with flight := n.flight.eraseIdx i }

theorem Net.step_act {l : NetLabel} (hst : Net.step fw mtuSize l n = some n') :
    n.Act fw mtuSize l n' := by
  cases l with
  | enter =>
    simp only [Net.step] at hst
    split at hst
    next hpc =>
      split at hst
      next hlt =>
        cases hst
        exact .enter hpc hlt
      next hge =>
        cases hst
        exact .leave hpc (Nat.le_of_not_lt hge)
    · cases hst
  | write link =>
    simp only [Net.step] at hst
    split at hst
    next s hpc =>
      split at hst
      · cases hst
      next pkt rest hr =>
        cases hst
        exact .write hpc hr
    · cases hst
  | wait =>
    simp only [Net.step] at hst
    split at hst
    next s hpc =>
      by_cases hnil : s.rest = []
      · rw [if_pos hnil] at hst
        split at hst
        · cases hst
        next hw =>
          cases hst
          exact .timeout hpc hnil hw
        next frame hw =>
          cases hst
          exact .frame hpc hnil hw
      · rw [if_neg hnil] at hst
        cases hst
    · cases hst
  | expire =>
    simp only [Net.step] at hst
    split at hst
    next s hpc =>
      split at hst
      next harmed =>
        cases hst
        exact .expire hpc harmed
      · cases hst
    · cases hst
  | indicate i =>
    simp only [Net.step] at hst
    split at hst
    next frame hi =>
      cases hst
      exact .indicate hi
    · cases hst
  | lose i =>
    simp only [Net.step] at hst
    split at hst
    next hi =>
      cases hst
      exact .lose hi
    · cases hst

/-- What was delivered stays delivered. -/
theorem delivered_handle (pkt : List UInt8) (n : Net) :
    n.delivered <+: (n.handle pkt).delivered := by
  unfold Net.handle
  dsimp only
  split
  · exact List.prefix_rfl
  · exact List.prefix_append _ _

theorem receive_kept (frame : List UInt8) (n : Net) :
    (n.receive frame).delivered = n.delivered ∧ (n.receive frame).comp = n.comp ∧
      (n.receive frame).host.current = n.host.current := by
  unfold Net.receive
  split
  · split <;> exact ⟨rfl, rfl, rfl⟩
  · exact ⟨rfl, rfl, rfl⟩

theorem step_delivered {l : NetLabel} (hst : Net.step fw mtuSize l n = some n') :
    n.delivered <+: n'.delivered := by
  cases Net.step_act hst with
  | @write s pkt rest link =>
    unfold Net.writePacket
    cases link with
    | up => exact delivered_handle pkt n
    | down reached timeout =>
      cases reached with
      | true => exact delivered_handle pkt n
      | false => exact List.prefix_rfl
  | @indicate i frame =>
    obtain ⟨hkept, -, -⟩ := receive_kept frame { n with flight := n.flight.eraseIdx i }
    exact hkept.symm ▸ List.prefix_rfl
  | enter | leave | timeout | frame | expire | lose => exact List.prefix_rfl

/-! ## The invariant -/

/-- The component has completed the first `k` sectors, and is at the start of the next one. -/
structure Ready (fw : List UInt8) (k : Nat) (n : Net) : Prop where
  delivered : n.delivered = firstSectors fw k
  comp : Filling k 0 [] n.comp
  inOrder : n.comp.sectorSequenceError = false

/-- The component has `seq` packets of the sector `k`. -/
structure Partly (fw : List UInt8) (chunk k seq : Nat) (s : SendSector) (n : Net) : Prop where
  delivered : n.delivered = firstSectors fw k
  flight : n.flight = []
  waiter : ∀ frame, s.waiter ≠ .got frame
  comp : Filling k seq ((sectorData fw k).take (seq * chunk)) n.comp
  inOrder : n.comp.sectorSequenceError = true → seq = 0 ∧ chunk < (sectorData fw k).length

/-- The acknowledgements of the sector that have not been used. -/
def outstanding (s : SendSector) (n : Net) : List (List UInt8) :=
  n.flight ++ match s.waiter with
    | .got frame => [frame]
    | _ => []

/-- The host and the component in the middle of `send_sector`. -/
inductive Phase (fw : List UInt8) (chunk k : Nat) (s : SendSector) (n : Net) : Prop
  | filling (seq : Nat) : Partly fw chunk k seq s n →
      Planned chunk k (sectorData fw k) seq (seq * chunk) s.rest → Phase fw chunk k s n
  | behind {seq : Nat} : Partly fw chunk k seq s n → 0 < seq →
      seq * chunk < (sectorData fw k).length → s.rest = s.packets → Phase fw chunk k s n
  | taken : Ready fw (k + 1) n → s.rest = [] → (outstanding s n).length ≤ 1 →
      (∀ frame ∈ outstanding s n, ∃ b0 b1, frame = successAck b0 b1) → Phase fw chunk k s n
  | ahead : Ready fw (k + 1) n → s.rest = s.packets → Phase fw chunk k s n

/-- The invariant of the transfer. -/
def Inv (fw : List UInt8) (mtuSize : Nat) (n : Net) : Prop :=
  match n.host.pc with
  | .loop => n.host.current ≤ totalSectors fw ∧ Ready fw n.host.current n ∧ n.flight = []
  | .sending s => s.sectorIndex = n.host.current ∧ n.host.current < totalSectors fw ∧
      Planned (mtuSize - 6) n.host.current (sectorData fw n.host.current) 0 0 s.packets ∧
      Phase fw (mtuSize - 6) n.host.current s n
  | .finished ok => ok = true → n.delivered = firstSectors fw (totalSectors fw)
  | .raised => True

theorem Inv.start (fw : List UInt8) (mtuSize : Nat) (c : Component) :
    Inv fw mtuSize (.start fw c) := by
  have hc : bleOtaStartWriteChr (startPayload fw.length) true c = _ := if_pos ⟨rfl, rfl⟩
  refine ⟨Nat.zero_le _, ⟨rfl, ?_, ?_⟩, rfl⟩
  · unfold Net.start
    rw [hc]
    exact ⟨rfl, rfl, rfl, rfl⟩
  · unfold Net.start
    rw [hc]

/-! ## The steps of the host -/

theorem Planned.ne_nil {chunk sector seq offset : Nat} {data : List UInt8}
    {packets : List (List UInt8)} (h : Planned chunk sector data seq offset packets) :
    packets ≠ [] := by
  cases h <;> exact List.cons_ne_nil _ _

/-- A loop that ends before the last sector ends without `transfer_ok`. -/
theorem Inv.leave (h : n.host.current < totalSectors fw) :
    Inv fw mtuSize { n with host := n.host.leave fw } := by
  intro hok
  have := of_decide_eq_true hok
  omega

/-- The test of the transfer loop, and the first pass of `send_sector`. -/
theorem Inv.enter (hmtu : 23 ≤ mtuSize) (h : Inv fw mtuSize n) (hpc : n.host.pc = .loop)
    (hst : Net.step fw mtuSize .enter n = some n') : Inv fw mtuSize n' := by
  unfold Inv at h
  rw [hpc] at h
  obtain ⟨hle, hready, hflight⟩ := h
  simp only [Net.step, hpc] at hst
  by_cases hlt : n.host.current < totalSectors fw
  · rw [if_pos hlt] at hst
    cases hst
    obtain ⟨packets, hp, hpl⟩ := planSectorPackets_planned hmtu hlt
    simp only [HostSt.pass, hp]
    refine ⟨rfl, hlt, hpl, .filling 0 ⟨hready.delivered, hflight, nofun, ?_, ?_⟩ ?_⟩
    · simpa using hready.comp
    · intro hx
      exact absurd (hready.inOrder.symm.trans hx) Bool.false_ne_true
    · simpa using hpl
  · rw [if_neg hlt] at hst
    cases hst
    have heq : n.host.current = totalSectors fw := by omega
    intro _
    exact heq ▸ hready.delivered

/-! ## The steps in `send_sector` -/

/-- The variables of `send_sector` after a timeout. -/
def SendSector.again (s : SendSector) (attempt : Nat) : SendSector :=
  { s with attempt := attempt, rest := s.packets, waiter := .armed }

variable {chunk : Nat} {pkt : List UInt8} {rest : List (List UInt8)}

theorem Phase.host (h : Phase fw chunk k s n) (host : HostSt) :
    Phase fw chunk k s { n with host := host } := by
  cases h with
  | filling seq hp hr =>
    exact .filling seq ⟨hp.delivered, hp.flight, hp.waiter, hp.comp, hp.inOrder⟩ hr
  | behind hp h0 hlt hr =>
    exact .behind ⟨hp.delivered, hp.flight, hp.waiter, hp.comp, hp.inOrder⟩ h0 hlt hr
  | taken hr h0 hlen hack => exact .taken ⟨hr.delivered, hr.comp, hr.inOrder⟩ h0 hlen hack
  | ahead hr h0 => exact .ahead ⟨hr.delivered, hr.comp, hr.inOrder⟩ h0

theorem Planned.offset_lt {sector seq offset : Nat} {data : List UInt8}
    {packets : List (List UInt8)} (h : Planned chunk sector data seq offset packets) :
    offset < data.length := by
  cases h with
  | tail hlt _ => exact hlt
  | more hlt _ => omega

/-- The host starts the sector again. -/
theorem Phase.again (h : Phase fw chunk k s n)
    (hpl : Planned chunk k (sectorData fw k) 0 0 s.packets) (a : Nat) :
    Phase fw chunk k (s.again a) n := by
  cases h with
  | filling seq hp hr =>
    have hp' : Partly fw chunk k seq (s.again a) n :=
      ⟨hp.delivered, hp.flight, nofun, hp.comp, hp.inOrder⟩
    by_cases h0 : seq = 0
    · subst h0
      exact .filling 0 hp' (by rw [Nat.zero_mul]; exact hpl)
    · exact .behind hp' (Nat.pos_of_ne_zero h0) hr.offset_lt rfl
  | behind hp h0 hlt _ =>
    exact .behind ⟨hp.delivered, hp.flight, nofun, hp.comp, hp.inOrder⟩ h0 hlt rfl
  | taken hr _ _ _ => exact .ahead hr rfl
  | ahead hr _ => exact .ahead hr rfl

/-- A timeout: the host sends the packets of the sector again, or gives up. -/
theorem Inv.retry {host : HostSt} (hidx : s.sectorIndex = host.current)
    (hlt : host.current < totalSectors fw)
    (hpl : Planned (mtuSize - 6) host.current (sectorData fw host.current) 0 0 s.packets)
    (hphase : ∀ a, Phase fw (mtuSize - 6) host.current (s.again a) n) :
    Inv fw mtuSize { n with host := host.retry fw s } := by
  unfold HostSt.retry
  dsimp only
  split
  · exact Inv.leave (n := { n with host := host }) hlt
  · exact ⟨hidx, hlt, hpl, (hphase _).host _⟩

theorem handle_host : (n.handle pkt).host = n.host := by
  unfold Net.handle
  dsimp only
  split <;> rfl

theorem attStatus_invalidState {frame : Option (List UInt8)} :
    attStatus (.reply frame espErrInvalidState) ≠ 0 := by
  simp [attStatus, espErrInvalidState, espOk]

/-- An answer without a frame. -/
theorem handle_reply {c : Component} {err : EspErr}
    (h : recvFwWrite pkt n.comp = (c, .reply none err)) : n.handle pkt = { n with comp := c } := by
  unfold Net.handle
  rw [h]
  simp

/-- Whatever the answer is, it hands nothing to the callback. -/
theorem handle_delivered {c : Component} {frame : Option (List UInt8)} {err : EspErr}
    (h : recvFwWrite pkt n.comp = (c, .reply frame err)) :
    (n.handle pkt).delivered = n.delivered ∧ (n.handle pkt).comp = c := by
  unfold Net.handle
  rw [h]
  exact ⟨rfl, rfl⟩

/-- The end of a sector. -/
theorem handle_sectorEnd {c : Component} {sector data frame : List UInt8}
    (h : recvFwWrite pkt n.comp = (c, .sectorEnd sector data frame)) :
    ∃ frames, frames.length ≤ 1 ∧ (∀ f ∈ frames, f = frame) ∧
      n.handle pkt =
        { n with comp := c, flight := n.flight ++ frames, delivered := n.delivered ++ [data] } := by
  refine ⟨(espBleOtaNotificationData n.comp .recvFw frame).toList, ?_, ?_, ?_⟩
  · cases espBleOtaNotificationData n.comp .recvFw frame <;> simp
  · intro f hf
    unfold espBleOtaNotificationData at hf
    dsimp only at hf
    split at hf
    · simpa using hf
    · simp at hf
  · unfold Net.handle
    rw [h]

/-- The component takes the next packet of the sector. -/
theorem Partly.write {seq : Nat} (h : Partly fw chunk k seq s n)
    (hpl : Planned chunk k (sectorData fw k) seq (seq * chunk) (pkt :: rest)) (hk : k < 65536)
    (hchunk : 17 ≤ chunk) :
    attStatus (recvFwWrite pkt n.comp).2 = 0 ∧
      Phase fw chunk k { s with rest := rest } (n.handle pkt) := by
  have hle : (sectorData fw k).length ≤ 4096 := sectorData_length_le
  have hoff := hpl.offset_lt
  have hbuf : ((sectorData fw k).take (seq * chunk)).length = seq * chunk := by
    rw [List.length_take]
    omega
  cases hpl with
  | tail _ hlast =>
    have hord : n.comp.sectorSequenceError = false := by
      by_contra hx
      obtain ⟨h0, hlt⟩ := h.inOrder (Bool.eq_true_of_not_eq_false hx)
      rw [h0] at hlast
      omega
    obtain ⟨c', b0, b1, heq, hc', hord'⟩ := h.comp.tail ((sectorData fw k).drop (seq * chunk))
      (crc16Ccitt (sectorData fw k)) hk hord (by
        rw [hbuf, List.length_drop]
        simp only [otaBlockSize]
        omega)
    rw [List.take_append_drop] at heq
    obtain ⟨frames, hlen, hframes, hn'⟩ := handle_sectorEnd heq
    refine ⟨by rw [heq]; rfl, ?_⟩
    rw [hn', h.flight, List.nil_append]
    have hout : outstanding { s with rest := [] } { n with
        comp := c', flight := frames, delivered := n.delivered ++ [sectorData fw k] } = frames := by
      have hw := h.waiter
      unfold outstanding
      dsimp only
      split
      next frame hx => exact absurd hx (hw frame)
      · exact List.append_nil _
    refine .taken ⟨?_, hc', hord'⟩ rfl (by rw [hout]; exact hlen) ?_
    · rw [firstSectors_succ, ← h.delivered]
    · rw [hout]
      exact fun f hf => ⟨b0, b1, hframes f hf⟩
  | more hlt hrest =>
    have hseq : seq < 241 := seq_lt hchunk (by omega)
    obtain ⟨c', heq, hc', hord'⟩ := h.comp.more (((sectorData fw k).drop (seq * chunk)).take chunk)
      hk (by omega) (by
        rw [hbuf, List.length_take]
        simp only [otaBlockSize]
        omega)
    have hmul : (seq + 1) * chunk = seq * chunk + chunk := by rw [Nat.add_mul, Nat.one_mul]
    refine ⟨by rw [heq]; rfl, ?_⟩
    rw [handle_reply heq]
    refine .filling (seq + 1) ⟨h.delivered, h.flight, h.waiter, ?_, ?_⟩ (hmul ▸ hrest)
    · rw [hmul, List.take_add]
      exact hc'
    · intro hx
      exact absurd (hord'.symm.trans hx) Bool.false_ne_true

/-- The component rejects the first packet when it has others of the sector. -/
theorem Partly.reject {seq : Nat} (h : Partly fw chunk k seq s n) (h0 : 0 < seq)
    (hlt : seq * chunk < (sectorData fw k).length)
    (hpl : Planned chunk k (sectorData fw k) 0 0 (pkt :: rest)) (hk : k < 65536)
    (hchunk : 17 ≤ chunk) (hr : s.packets = pkt :: rest) (a : Nat) :
    attStatus (recvFwWrite pkt n.comp).2 ≠ 0 ∧ Phase fw chunk k (s.again a) (n.handle pkt) := by
  have hle : (sectorData fw k).length ≤ 4096 := sectorData_length_le
  have hseq : seq < 241 := seq_lt hchunk (by omega)
  have hmul : 1 * chunk ≤ seq * chunk := Nat.mul_le_mul_right chunk h0
  have hpl' := hpl
  cases hpl with
  | tail _ hlast => omega
  | more _ _ =>
    have hne : UInt8.ofNat 0 ≠ UInt8.ofNat seq := by
      intro hx
      have := congrArg UInt8.toNat hx
      rw [UInt8.toNat_ofNat', UInt8.toNat_ofNat'] at this
      omega
    have heq := h.comp.wrongPacket (((sectorData fw k).drop 0).take chunk) hk hne (by decide)
    refine ⟨by rw [heq]; exact attStatus_invalidState, ?_⟩
    rw [handle_reply heq]
    refine .filling 0 ⟨h.delivered, h.flight, nofun, ?_, fun _ => ⟨rfl, by omega⟩⟩ ?_
    · simpa using h.comp.restart true
    · have hpl' : Planned chunk k (sectorData fw k) 0 0 s.packets := hr ▸ hpl'
      rw [Nat.zero_mul]
      exact hpl'

/-- The component rejects the packets of the sector that it has completed. -/
theorem Ready.reject (h : Ready fw (k + 1) n)
    (hpl : Planned chunk k (sectorData fw k) 0 0 (pkt :: rest)) (hk : k < 65535) (a : Nat) :
    attStatus (recvFwWrite pkt n.comp).2 ≠ 0 ∧ Phase fw chunk k (s.again a) (n.handle pkt) := by
  obtain ⟨seq, payload, rfl⟩ : ∃ seq payload, pkt = wire k seq payload := by
    cases hpl with
    | tail | more => exact ⟨_, _, rfl⟩
  obtain ⟨frame, heq⟩ := h.comp.wrongSector seq payload hk (by omega)
  obtain ⟨hd, hc⟩ := handle_delivered heq
  refine ⟨by rw [heq]; exact attStatus_invalidState, .ahead ⟨hd.trans h.delivered, ?_, ?_⟩ rfl⟩
  · rw [hc]
    exact h.comp.restart false
  · rw [hc]
    rfl

theorem firstSectors_length : (firstSectors fw k).length = k := by
  simp [firstSectors]

/-- What a packet does to the host and the component. -/
theorem Phase.write (h : Phase fw chunk k s n) (hr : s.rest = pkt :: rest)
    (hpl : Planned chunk k (sectorData fw k) 0 0 s.packets) (hlen : n.delivered.length < 65536)
    (hchunk : 17 ≤ chunk) :
    (attStatus (recvFwWrite pkt n.comp).2 = 0 ∧
      Phase fw chunk k { s with rest := rest } (n.handle pkt)) ∨
    (attStatus (recvFwWrite pkt n.comp).2 ≠ 0 ∧
      ∀ a, Phase fw chunk k (s.again a) (n.handle pkt)) := by
  cases h with
  | filling seq hp hpl' =>
    rw [hp.delivered, firstSectors_length] at hlen
    rw [hr] at hpl'
    exact .inl (hp.write hpl' hlen hchunk)
  | behind hp h0 hlt hr' =>
    rw [hp.delivered, firstSectors_length] at hlen
    have hpk : s.packets = pkt :: rest := hr'.symm.trans hr
    rw [hpk] at hpl
    exact .inr ⟨(hp.reject h0 hlt hpl hlen hchunk hpk 0).1,
      fun a => (hp.reject h0 hlt hpl hlen hchunk hpk a).2⟩
  | taken _ hnil _ _ => exact absurd (hnil.symm.trans hr) (List.cons_ne_nil _ _).symm
  | ahead hready hr' =>
    rw [hready.delivered, firstSectors_length] at hlen
    have hk : k < 65535 := by omega
    rw [← hr', hr] at hpl
    exact .inr ⟨(hready.reject (s := s) hpl hk 0).1, fun a => (hready.reject hpl hk a).2⟩

theorem Inv.write (hmtu : 23 ≤ mtuSize) (hlen : n.delivered.length < 65536) {link : Link}
    (h : Inv fw mtuSize n) (hpc : n.host.pc = .sending s) (hr : s.rest = pkt :: rest) :
    Inv fw mtuSize (n.writePacket fw s pkt rest link) := by
  unfold Inv at h
  rw [hpc] at h
  obtain ⟨hidx, hlt, hpl, hphase⟩ := h
  have hw := hphase.write hr hpl hlen (by omega)
  cases link with
  | up =>
    unfold Net.writePacket
    dsimp only
    rcases hw with ⟨hok, hnext⟩ | ⟨herr, -⟩
    · rw [if_pos hok]
      exact ⟨hidx, hlt, hpl, hnext.host _⟩
    · rw [if_neg herr]
      trivial
  | down reached timeout =>
    cases timeout with
    | false => exact trivial
    | true =>
      cases reached with
      | false => exact Inv.retry hidx hlt hpl (hphase.again hpl)
      | true =>
        have hagain : ∀ a, Phase fw (mtuSize - 6) n.host.current (s.again a) (n.handle pkt) := by
          rcases hw with ⟨-, hnext⟩ | ⟨-, hagain⟩
          · exact hnext.again hpl
          · exact hagain
        unfold Net.writePacket
        simp only [if_true, handle_host]
        exact Inv.retry hidx hlt hpl hagain

/-- The end of the wait. -/
theorem Inv.wait (h : Inv fw mtuSize n) (hpc : n.host.pc = .sending s) (hnil : s.rest = []) :
    (s.waiter = .expired → Inv fw mtuSize { n with host := n.host.retry fw s }) ∧
    ∀ frame, s.waiter = .got frame →
      Inv fw mtuSize { n with host := n.host.onFrame fw mtuSize s frame } := by
  unfold Inv at h
  rw [hpc] at h
  obtain ⟨hidx, hlt, hpl, hphase⟩ := h
  refine ⟨fun _ => Inv.retry hidx hlt hpl (hphase.again hpl), fun frame hgot => ?_⟩
  cases hphase with
  | filling seq hp hpl' => exact absurd hgot (hp.waiter frame)
  | behind hp _ _ _ => exact absurd hgot (hp.waiter frame)
  | ahead _ hr => exact absurd (hr.symm.trans hnil) hpl.ne_nil
  | taken hready _ hlen hack =>
    have hout : outstanding s n = n.flight ++ [frame] := by
      unfold outstanding
      rw [hgot]
    rw [hout] at hlen hack
    have hflight : n.flight = [] := by
      rw [List.length_append, List.length_singleton] at hlen
      exact List.eq_nil_of_length_eq_zero (by omega)
    obtain ⟨b0, b1, rfl⟩ := hack frame (by simp)
    unfold HostSt.onFrame
    rw [if_neg (fun hx => hx rfl), if_neg (fun hx => hx verifyAckCrc_cmdAck)]
    simp only [unpackH_successAck, if_true]
    refine ⟨?_, ?_, hflight⟩
    · dsimp only
      omega
    · rw [hidx]
      exact ⟨hready.delivered, hready.comp, hready.inOrder⟩

/-- An indication leaves the way: it is lost, or the waiter has it now. -/
theorem Phase.arrive (h : Phase fw chunk k s n) {i : Nat} {frame : List UInt8}
    (hi : n.flight[i]? = some frame) {w : Waiter}
    (hw : w = s.waiter ∨ (s.waiter = .armed ∧ w = .got frame)) :
    Phase fw chunk k { s with waiter := w } { n with flight := n.flight.eraseIdx i } := by
  have hempty : n.flight ≠ [] := by
    rintro hx
    rw [hx] at hi
    cases hi
  obtain ⟨hlt, hget⟩ := List.getElem?_eq_some_iff.mp hi
  cases h with
  | filling _ hp _ => exact absurd hp.flight hempty
  | behind hp _ _ _ => exact absurd hp.flight hempty
  | ahead hready hr => exact .ahead ⟨hready.delivered, hready.comp, hready.inOrder⟩ hr
  | taken hready hnil hlen hack =>
    have hers : (n.flight.eraseIdx i).length = n.flight.length - 1 :=
      List.length_eraseIdx_of_lt hlt
    refine .taken ⟨hready.delivered, hready.comp, hready.inOrder⟩ hnil ?_ ?_
    · rcases hw with rfl | ⟨harmed, rfl⟩
      · simp only [outstanding, List.length_append] at hlen ⊢
        omega
      · simp only [outstanding, harmed, List.length_append, List.length_singleton,
          List.length_nil] at hlen ⊢
        omega
    · intro f hf
      refine hack f ?_
      rcases hw with rfl | ⟨harmed, rfl⟩
      · simp only [outstanding, List.mem_append] at hf ⊢
        exact hf.imp_left List.mem_of_mem_eraseIdx
      · simp only [outstanding, harmed, List.mem_append, List.mem_singleton] at hf ⊢
        rcases hf with hf | rfl
        · exact .inl (List.mem_of_mem_eraseIdx hf)
        · exact .inl (hget ▸ List.getElem_mem hlt)

theorem Inv.lose (h : Inv fw mtuSize n) {i : Nat} (hi : i < n.flight.length) :
    Inv fw mtuSize { n with flight := n.flight.eraseIdx i } := by
  unfold Inv at h ⊢
  dsimp only
  split at h
  next hpc =>
    obtain ⟨-, -, hflight⟩ := h
    rw [hflight] at hi
    cases hi
  next s hpc =>
    obtain ⟨hidx, hlt, hpl, hphase⟩ := h
    exact ⟨hidx, hlt, hpl, hphase.arrive (List.getElem?_eq_getElem hi) (.inl rfl)⟩
  next ok hpc => exact h
  next => trivial

theorem Inv.indicate (h : Inv fw mtuSize n) {i : Nat} {frame : List UInt8}
    (hi : n.flight[i]? = some frame) :
    Inv fw mtuSize (Net.receive frame { n with flight := n.flight.eraseIdx i }) := by
  obtain ⟨hlt, -⟩ := List.getElem?_eq_some_iff.mp hi
  have hlose := h.lose hlt
  unfold Net.receive
  dsimp only
  split
  next s hpc =>
    split
    next harmed =>
      unfold Inv at h
      rw [hpc] at h
      obtain ⟨hidx, hlt, hpl, hphase⟩ := h
      exact ⟨hidx, hlt, hpl, (hphase.arrive hi (.inr ⟨harmed, rfl⟩)).host _⟩
    · exact hlose
  · exact hlose

theorem Inv.expire (h : Inv fw mtuSize n) (hpc : n.host.pc = .sending s)
    (harmed : s.waiter = .armed) :
    Inv fw mtuSize { n with
      host := { n.host with pc := .sending { s with waiter := .expired } } } := by
  unfold Inv at h
  rw [hpc] at h
  obtain ⟨hidx, hlt, hpl, hphase⟩ := h
  refine ⟨hidx, hlt, hpl, ?_⟩
  cases hphase with
  | filling seq hp hr =>
    exact .filling seq ⟨hp.delivered, hp.flight, nofun, hp.comp, hp.inOrder⟩ hr
  | behind hp h0 hlt hr =>
    exact .behind ⟨hp.delivered, hp.flight, nofun, hp.comp, hp.inOrder⟩ h0 hlt hr
  | ahead hr h0 => exact .ahead ⟨hr.delivered, hr.comp, hr.inOrder⟩ h0
  | taken hr hnil hlen hack =>
    simp only [outstanding, harmed] at hlen hack
    exact .taken ⟨hr.delivered, hr.comp, hr.inOrder⟩ hnil hlen hack

/-! ## The transfer -/

/-- While the host sends a sector the component has delivered no more than the sectors of the
firmware. -/
theorem Inv.delivered_le (h : Inv fw mtuSize n) (hpc : n.host.pc = .sending s) :
    n.delivered.length ≤ totalSectors fw := by
  unfold Inv at h
  rw [hpc] at h
  obtain ⟨-, hlt, -, hphase⟩ := h
  cases hphase with
  | filling _ hp _ | behind hp _ _ _ =>
    rw [hp.delivered, firstSectors_length]
    omega
  | taken hr _ _ _ | ahead hr _ =>
    rw [hr.delivered, firstSectors_length]
    omega

/-- Every step keeps the invariant, until the index of the sector needs more than 16 bits. -/
theorem Inv.step (hmtu : 23 ≤ mtuSize) {l : NetLabel}
    (hlen : ∀ s, n.host.pc = .sending s → n.delivered.length < 65536)
    (h : Inv fw mtuSize n) (hst : Net.step fw mtuSize l n = some n') : Inv fw mtuSize n' := by
  cases Net.step_act hst with
  | enter hpc | leave hpc => exact h.enter hmtu hpc hst
  | write hpc hr => exact h.write hmtu (hlen _ hpc) hpc hr
  | timeout hpc hnil hw => exact (h.wait hpc hnil).1 hw
  | frame hpc hnil hw => exact (h.wait hpc hnil).2 _ hw
  | expire hpc harmed => exact h.expire hpc harmed
  | indicate hi => exact h.indicate hi
  | lose hi => exact h.lose hi

theorem Inv.reach (hmtu : 23 ≤ mtuSize) (htotal : totalSectors fw < 65536)
    (hr : (system fw mtuSize).Reach n) : Inv fw mtuSize n := by
  refine hr.invariant ?_ fun l s s' _ hs hst => ?_
  · rintro _ ⟨c, rfl⟩
    exact Inv.start fw mtuSize c
  · exact hs.step hmtu (fun t hpc => Nat.lt_of_le_of_lt (hs.delivered_le hpc) htotal) hst

/-- **A transfer that ends with `transfer_ok` is exact**: the buffers of the firmware callback are
the sectors of the firmware, each once and in order, and together they are the firmware. -/
theorem transfer_exact (hmtu : 23 ≤ mtuSize) (htotal : totalSectors fw < 65536)
    (hr : (system fw mtuSize).Reach n) (hok : n.host.pc = .finished true) :
    n.delivered = (List.range (totalSectors fw)).map (sectorData fw) ∧
      n.delivered.flatten = fw := by
  have h := Inv.reach hmtu htotal hr
  unfold Inv at h
  rw [hok] at h
  have hd := h rfl
  exact ⟨hd, hd ▸ firstSectors_total⟩

/-- A firmware of three bytes: one packet, and its acknowledgement after a subscription. -/
def threeBytes : Net :=
  (system [1, 2, 3] 23).run [.enter, .write .up, .indicate 0, .wait, .enter]
    (.start [1, 2, 3] { Component.zero with otaNotification := ⟨true, true, true, true⟩ })

theorem transfer_exact_threeBytes : threeBytes.delivered.flatten = [1, 2, 3] := by
  have hi (c : Component) : (system [1, 2, 3] 23).Reach (.start [1, 2, 3] c) := .init ⟨c, rfl⟩
  have hr : (system [1, 2, 3] 23).Reach threeBytes := Lib.Lts.run_reach (hi _) _
  have hok : threeBytes.host.pc = .finished true := by decide +kernel
  exact (transfer_exact (by decide) (by decide) hr hok).2

end BleOta.Host
