import BleOta.Host.Transfer

/-!
# The counters and the events of a transfer

`send_sector` counts what it does in `stats` and tells it to its embedder (`emit`). `Observed` is
the transfer with both; what is emitted and counted depends on the step and on the state before it.

* `Observed.net_reach`: the observers change nothing.
* `Told`, `told_reach`: against the component, whatever is lost or late, each sector is acknowledged
  once and in order, and nothing else than these acknowledgements and timeouts is ever told: the
  branches of `send_sector` for a frame that is bad, unknown or asks for another sector are not
  reached.
-/

namespace BleOta.Host

/-- The events of `send_sector`. -/
inductive ProtoEvent where
  | sectorSent (sector packets : Nat)
  | packet (pkt : Nat)
  | sectorAck (sector status : Nat)
  | sectorJump (sent expect : Nat)
  | ackTimeout (sector attempt retries : Nat)
  | ackBadFrame (sector : Nat) (frame : List UInt8)
  | ackCrcMismatch (sector : Nat) (frame : List UInt8)
  | ackUnknown (sector status : Nat)
  deriving DecidableEq, Repr

/-- `stats`, less `reconnects`, which is not of the transfer. -/
structure Stats where
  packetsSent : Nat
  sectorsDone : Nat
  sectorJumps : Nat
  tailRetries : Nat
  deriving DecidableEq, Repr

/-- What is counted after a step, and the events of the step. -/
abbrev Emits := Stats × List ProtoEvent

section

variable (fw : List UInt8) (mtuSize : Nat)

/-- The beginning of a pass of the `for` loop, if `jumps` are left. -/
def sectorSent (sectorIndex jumps : Nat) : List ProtoEvent :=
  match jumps with
  | 0 => []
  | _ + 1 => match planSectorPackets mtuSize sectorIndex fw with
    | .ok packets => [.sectorSent sectorIndex packets.length]
    | .error _ => []

/-- The branch `asyncio.TimeoutError`. -/
def timedOut (s : SendSector) (st : Stats) : Emits :=
  let attempt := s.attempt + 1
  ({ st with tailRetries := st.tailRetries + 1 },
    if ackRetries ≤ attempt then [] else [.ackTimeout s.sectorIndex attempt ackRetries])

/-- A frame. -/
def framed (s : SendSector) (frame : List UInt8) (st : Stats) : Emits :=
  if frame.length ≠ ackFrameLen then
    (st, .ackBadFrame s.sectorIndex frame :: sectorSent fw mtuSize s.sectorIndex s.jumps)
  else if ¬verifyAckCrc frame then
    (st, .ackCrcMismatch s.sectorIndex frame :: sectorSent fw mtuSize s.sectorIndex s.jumps)
  else
    let status := unpackH frame 2
    let extra := unpackH frame 4
    if status = ackFwStatusSuccess then
      ({ st with sectorsDone := st.sectorsDone + 1 }, [.sectorAck s.sectorIndex status])
    else if status = ackFwStatusSectorErr then
      ({ st with sectorJumps := st.sectorJumps + 1 },
        .sectorJump s.sectorIndex extra :: sectorSent fw mtuSize extra s.jumps)
    else (st, .ackUnknown s.sectorIndex status :: sectorSent fw mtuSize s.sectorIndex s.jumps)

/-- The write of a packet: only one that succeeds is counted. -/
def written (s : SendSector) (pkt : List UInt8) (c : Component) (st : Stats) : Link → Emits
  | .up =>
    if attStatus (recvFwWrite pkt c).2 = 0 then
      let sent := st.packetsSent + 1
      ({ st with packetsSent := sent }, [.packet sent])
    else (st, [])
  | .down _ timeout => if timeout then timedOut s st else (st, [])

/-- What a step counts and emits. -/
def emits (l : NetLabel) (n : Net) (st : Stats) : Emits :=
  match l, n.host.pc with
  | .enter, .loop =>
    if n.host.current < totalSectors fw then
      (st, sectorSent fw mtuSize n.host.current maxJumps)
    else (st, [])
  | .write link, .sending s => match s.rest with
    | [] => (st, [])
    | pkt :: _ => written s pkt n.comp st link
  | .wait, .sending s =>
    if s.rest = [] then match s.waiter with
      | .armed => (st, [])
      | .expired => timedOut s st
      | .got frame => framed fw mtuSize s frame st
    else (st, [])
  | _, _ => (st, [])

/-- The transfer, its counters, and the events so far. -/
structure Observed where
  net : Net
  stats : Stats
  events : List ProtoEvent

/-- A step of the transfer. -/
def Observed.step (l : NetLabel) (x : Observed) : Option Observed :=
  (Net.step fw mtuSize l x.net).map fun n =>
    let out := emits fw mtuSize l x.net x.stats
    ⟨n, out.1, x.events ++ out.2⟩

/-- The transfer of `fw` with its observers. -/
def observed : Lib.Lts Observed NetLabel :=
  ⟨fun x => ∃ c, x = ⟨.start fw c, ⟨0, 0, 0, 0⟩, []⟩, Observed.step fw mtuSize⟩

end

variable {fw : List UInt8} {mtuSize : Nat} {x x' : Observed} {n n' : Net} {l : NetLabel}
  {s : SendSector} {st : Stats}

theorem Observed.net_reach (h : (observed fw mtuSize).Reach x) :
    (system fw mtuSize).Reach x.net := by
  induction h with
  | init hx =>
    obtain ⟨c, rfl⟩ := hx
    exact .init ⟨c, rfl⟩
  | step l _ hst ih =>
    obtain ⟨n, hn, rfl⟩ := Option.map_eq_some_iff.mp hst
    exact .step l ih hn

/-! ## What a step tells -/

/-- Where the host is: between two sectors, in an attempt for one, at the end. -/
inductive TransferStage where
  | between
  | sending (attempt : Nat)
  | finished (transferOk : Bool)
  | raised
  deriving DecidableEq, Repr

def HostPc.stage : HostPc → TransferStage
  | .loop => .between
  | .sending s => .sending s.attempt
  | .finished ok => .finished ok
  | .raised => .raised

/-- The steps of a transfer of `total` sectors as its observers see them: from the sector `k` and a
stage to others, with what is counted and emitted. -/
inductive Tells (total : Nat) (st : Stats) (k : Nat) :
    TransferStage → Nat → TransferStage → Emits → Prop
  | quiet {g} : Tells total st k g k g (st, [])
  | begins {packets} : k < total →
      Tells total st k .between k (.sending 0) (st, [.sectorSent k packets])
  | ends : k = total → Tells total st k .between k (.finished true) (st, [])
  | packet {a} : Tells total st k (.sending a) k (.sending a)
      ({ st with packetsSent := st.packetsSent + 1 }, [.packet (st.packetsSent + 1)])
  | raises {a} : Tells total st k (.sending a) k .raised (st, [])
  | retries {a} : a + 1 < ackRetries → Tells total st k (.sending a) k (.sending (a + 1))
      ({ st with tailRetries := st.tailRetries + 1 }, [.ackTimeout k (a + 1) ackRetries])
  | givesUp {a} : ackRetries ≤ a + 1 → Tells total st k (.sending a) k (.finished false)
      ({ st with tailRetries := st.tailRetries + 1 }, [])
  | acks {a} : k < total → Tells total st k (.sending a) (k + 1) .between
      ({ st with sectorsDone := st.sectorsDone + 1 }, [.sectorAck k ackFwStatusSuccess])

theorem retry_tells {h : HostSt} (hidx : s.sectorIndex = h.current)
    (hlt : h.current < totalSectors fw) :
    Tells (totalSectors fw) st h.current (.sending s.attempt) (h.retry fw s).current
      (h.retry fw s).pc.stage (timedOut s st) := by
  unfold HostSt.retry timedOut
  dsimp only
  split
  next hgive =>
    have hpc : (h.leave fw).pc.stage = .finished false :=
      congrArg TransferStage.finished (decide_eq_false (Nat.not_le.mpr hlt))
    rw [hpc]
    exact .givesUp hgive
  next hagain =>
    rw [hidx]
    exact .retries (Nat.lt_of_not_le hagain)

/-- A write, whatever comes of it. -/
theorem write_tells {pkt : List UInt8} {rest : List (List UInt8)} {link : Link}
    (hidx : s.sectorIndex = n.host.current) (hlt : n.host.current < totalSectors fw) :
    Tells (totalSectors fw) st n.host.current (.sending s.attempt)
      (n.writePacket fw s pkt rest link).host.current
      (n.writePacket fw s pkt rest link).host.pc.stage (written s pkt n.comp st link) := by
  cases link with
  | up =>
    unfold written Net.writePacket
    dsimp only
    split
    · exact .packet
    · exact .raises
  | down reached timeout =>
    have hhost : (if reached then n.handle pkt else n).host = n.host := by
      split
      · exact handle_host
      · rfl
    unfold written Net.writePacket
    dsimp only
    cases timeout with
    | false =>
      simp only [Bool.false_eq_true, if_false, hhost]
      exact .raises
    | true =>
      simp only [if_true, hhost]
      exact retry_tells hidx hlt

/-- The frame that `send_sector` looks at is the acknowledgement of its sector. -/
theorem Inv.frame (h : Inv fw mtuSize n) (hpc : n.host.pc = .sending s) (hnil : s.rest = [])
    {frame : List UInt8} (hgot : s.waiter = .got frame) : ∃ b0 b1, frame = successAck b0 b1 := by
  unfold Inv at h
  rw [hpc] at h
  obtain ⟨-, -, hpl, hphase⟩ := h
  cases hphase with
  | filling _ hp _ | behind hp _ _ _ => exact absurd hgot (hp.waiter frame)
  | ahead _ hr => exact absurd (hr.symm.trans hnil) hpl.ne_nil
  | taken _ _ _ hack =>
    refine hack frame ?_
    rw [outstanding, hgot]
    simp

theorem frame_tells {h : HostSt} {b0 b1 : UInt8} (hidx : s.sectorIndex = h.current)
    (hlt : h.current < totalSectors fw) :
    Tells (totalSectors fw) st h.current (.sending s.attempt)
      (h.onFrame fw mtuSize s (successAck b0 b1)).current
      (h.onFrame fw mtuSize s (successAck b0 b1)).pc.stage
      (framed fw mtuSize s (successAck b0 b1) st) := by
  have hlen : ¬(successAck b0 b1).length ≠ ackFrameLen := fun hx => hx rfl
  have hcrc : ¬¬verifyAckCrc (successAck b0 b1) = true := fun hx => hx verifyAckCrc_cmdAck
  unfold HostSt.onFrame framed
  rw [if_neg hlen, if_neg hcrc, if_neg hlen, if_neg hcrc]
  simp only [unpackH_successAck, if_true, hidx]
  exact .acks hlt

theorem receive_stage (frame : List UInt8) (n : Net) :
    (n.receive frame).host.pc.stage = n.host.pc.stage := by
  unfold Net.receive
  split
  next s hpc =>
    split
    · rw [hpc]
      rfl
    · rfl
  · rfl

/-- **Every step** tells what the observers may see. -/
theorem step_tells (hmtu : 23 ≤ mtuSize) (h : Inv fw mtuSize n)
    (hst : Net.step fw mtuSize l n = some n') :
    Tells (totalSectors fw) st n.host.current n.host.pc.stage n'.host.current n'.host.pc.stage
      (emits fw mtuSize l n st) := by
  have hinv := h
  unfold Inv at h
  unfold emits
  cases Net.step_act hst with
  | enter hpc hlt =>
    obtain ⟨packets, hp, -⟩ := planSectorPackets_planned hmtu hlt
    simp only [hpc, hlt, if_true, HostSt.pass, sectorSent, hp]
    exact .begins hlt
  | leave hpc hge =>
    rw [hpc] at h
    have hk : n.host.current = totalSectors fw := Nat.le_antisymm h.1 hge
    have hpc' : (n.host.leave fw).pc.stage = .finished true :=
      congrArg TransferStage.finished (decide_eq_true hge)
    simp only [hpc, Nat.not_lt.mpr hge, if_false, hpc']
    exact .ends hk
  | write hpc hr =>
    simp only [hpc, hr] at h ⊢
    exact write_tells h.1 h.2.1
  | timeout hpc hnil hw =>
    simp only [hpc, hnil, hw, if_true] at h ⊢
    exact retry_tells h.1 h.2.1
  | frame hpc hnil hw =>
    obtain ⟨b0, b1, rfl⟩ := hinv.frame hpc hnil hw
    simp only [hpc, hnil, hw, if_true] at h ⊢
    exact frame_tells h.1 h.2.1
  | expire hpc =>
    rw [hpc]
    exact .quiet
  | @indicate i frame =>
    obtain ⟨-, -, hcur⟩ := receive_kept frame { n with flight := n.flight.eraseIdx i }
    rw [receive_stage, hcur]
    exact .quiet
  | lose => exact .quiet

/-! ## What the observers see -/

/-- The sector of an acknowledgement. -/
def ProtoEvent.acked : ProtoEvent → Option Nat
  | .sectorAck sector _ => some sector
  | _ => none

/-- The number of a packet. -/
def ProtoEvent.packetNo : ProtoEvent → Option Nat
  | .packet pkt => some pkt
  | _ => none

/-- The events of a transfer that meets nothing but timeouts. -/
def ProtoEvent.Calm : ProtoEvent → Prop
  | .sectorSent .. | .packet _ | .sectorAck .. | .ackTimeout .. => True
  | _ => False

/-- The counters and the events when the host is at the sector `k`. -/
structure Told (k : Nat) (st : Stats) (events : List ProtoEvent) : Prop where
  calm : ∀ e ∈ events, e.Calm
  acks : events.filterMap ProtoEvent.acked = List.range k
  packets : events.filterMap ProtoEvent.packetNo = List.range' 1 st.packetsSent
  sectorsDone : st.sectorsDone = k
  sectorJumps : st.sectorJumps = 0

variable {total k k' : Nat} {g g' : TransferStage} {out : Emits} {es : List ProtoEvent}

theorem Told.step (h : Told k st es) (ht : Tells total st k g k' g' out) :
    Told k' out.1 (es ++ out.2) := by
  obtain ⟨hcalm, hacks, hpackets, hdone, hjumps⟩ := h
  have hadd {e : ProtoEvent} (he : e.Calm) : ∀ e' ∈ es ++ [e], e'.Calm := by
    intro e' he'
    rcases List.mem_append.mp he' with h | h
    · exact hcalm e' h
    · exact List.mem_singleton.mp h ▸ he
  have hkeep {f : ProtoEvent → Option Nat} {e : ProtoEvent} (he : f e = none) :
      (es ++ [e]).filterMap f = es.filterMap f := by
    rw [List.filterMap_append]
    simp [he]
  cases ht with
  | quiet | ends | raises | givesUp =>
    rw [List.append_nil]
    exact ⟨hcalm, hacks, hpackets, hdone, hjumps⟩
  | begins | retries =>
    exact ⟨hadd trivial, (hkeep rfl).trans hacks, (hkeep rfl).trans hpackets, hdone, hjumps⟩
  | packet =>
    refine ⟨hadd trivial, (hkeep rfl).trans hacks, ?_, hdone, hjumps⟩
    rw [List.filterMap_append, hpackets, List.range'_concat]
    simp [ProtoEvent.packetNo, Nat.add_comm]
  | acks =>
    refine ⟨hadd trivial, ?_, (hkeep rfl).trans hpackets, congrArg (· + 1) hdone, hjumps⟩
    rw [List.filterMap_append, hacks, List.range_succ]
    rfl

/-- Where the sector `k` and the stage of a transfer are. -/
structure TransferStage.Ok (total k : Nat) (g : TransferStage) : Prop where
  le : k ≤ total
  sending : ∀ a, g = .sending a → k < total ∧ a < ackRetries
  finished : g = .finished true → k = total

theorem TransferStage.Ok.step (h : g.Ok total k) (ht : Tells total st k g k' g' out) :
    g'.Ok total k' := by
  cases ht with
  | quiet => exact h
  | begins hlt => exact ⟨h.le, fun a ha => by cases ha; exact ⟨hlt, by decide⟩, by rintro ⟨⟩⟩
  | ends hk => exact ⟨h.le, by rintro a ⟨⟩, fun _ => hk⟩
  | packet => exact ⟨h.le, h.sending, by rintro ⟨⟩⟩
  | raises => exact ⟨h.le, by rintro a ⟨⟩, by rintro ⟨⟩⟩
  | retries ha =>
    exact ⟨h.le, fun a he => by cases he; exact ⟨(h.sending _ rfl).1, ha⟩, by rintro ⟨⟩⟩
  | givesUp => exact ⟨h.le, by rintro a ⟨⟩, by rintro ⟨⟩⟩
  | acks hlt => exact ⟨hlt, by rintro a ⟨⟩, by rintro ⟨⟩⟩

/-- The sector changes only between two sectors. -/
theorem Tells.moved (ht : Tells total st k g k' g' out) : k' = k ∨ g' = .between := by
  cases ht with
  | acks => exact .inr rfl
  | quiet | begins | ends | packet | raises | retries | givesUp => exact .inl rfl

/-! ## All runs -/

/-- What the steps of a transfer tell keeps is so in every run of it. -/
theorem observed_invariant {I : Nat → TransferStage → Stats → List ProtoEvent → Prop}
    (hmtu : 23 ≤ mtuSize) (htotal : totalSectors fw < 65536)
    (h0 : I 0 .between ⟨0, 0, 0, 0⟩ [])
    (hstep : ∀ {k g st es k' g' out}, g.Ok (totalSectors fw) k → I k g st es →
      Tells (totalSectors fw) st k g k' g' out → I k' g' out.1 (es ++ out.2))
    (hr : (observed fw mtuSize).Reach x) :
    x.net.host.pc.stage.Ok (totalSectors fw) x.net.host.current ∧
      I x.net.host.current x.net.host.pc.stage x.stats x.events := by
  refine hr.invariant (I := fun x => x.net.host.pc.stage.Ok (totalSectors fw) x.net.host.current ∧
    I x.net.host.current x.net.host.pc.stage x.stats x.events) ?_ fun l x x' hx hi hst => ?_
  · rintro _ ⟨c, rfl⟩
    exact ⟨⟨Nat.zero_le _, by rintro a ⟨⟩, by rintro ⟨⟩⟩, h0⟩
  · obtain ⟨n, hn, rfl⟩ := Option.map_eq_some_iff.mp hst
    have hinv := Inv.reach hmtu htotal (Observed.net_reach hx)
    have htells : Tells _ x.stats _ _ _ _ _ := step_tells hmtu hinv hn
    exact ⟨hi.1.step htells, hstep hi.1 hi.2 htells⟩

theorem told_reach (hmtu : 23 ≤ mtuSize) (htotal : totalSectors fw < 65536)
    (hr : (observed fw mtuSize).Reach x) : Told x.net.host.current x.stats x.events :=
  (observed_invariant (I := fun k _ st es => Told k st es) hmtu htotal
    ⟨by rintro e ⟨⟩, rfl, rfl, rfl, rfl⟩ (fun _ h ht => h.step ht) hr).2

/-- The sectors that are acknowledged have been delivered. -/
theorem acked_delivered (hmtu : 23 ≤ mtuSize) (htotal : totalSectors fw < 65536)
    (hr : (observed fw mtuSize).Reach x) :
    firstSectors fw x.net.host.current <+: x.net.delivered := by
  induction hr with
  | init hx =>
    obtain ⟨c, rfl⟩ := hx
    exact List.nil_prefix
  | @step x x' l hx hst ih =>
    obtain ⟨n, hn, rfl⟩ := Option.map_eq_some_iff.mp hst
    have hinv := Inv.reach hmtu htotal (Observed.net_reach hx)
    have htells : Tells _ x.stats _ _ _ _ _ := step_tells hmtu hinv hn
    rcases htells.moved with hk | hg
    · show firstSectors fw n.host.current <+: n.delivered
      rw [hk]
      exact ih.trans (step_delivered hn)
    · have hinv' : Inv fw mtuSize n :=
        Inv.reach hmtu htotal (Observed.net_reach (.step l hx hst))
      unfold Inv at hinv'
      cases hpc : n.host.pc with
      | loop =>
        rw [hpc] at hinv'
        exact hinv'.2.1.delivered ▸ List.prefix_rfl
      | sending | finished | raised =>
        rw [hpc] at hg
        cases hg

end BleOta.Host
