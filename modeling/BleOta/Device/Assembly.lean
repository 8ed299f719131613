import BleOta.Device.Steps
import Mathlib.Data.List.Induction

/-!
# What a sector is made of

For any client, in any order of events: the bytes that the component delivers as a sector are the
payloads of packets with consecutive numbers, all of that sector (`Row`), and of a tail packet.

* `PacketAct`, `recvFwWrite_act`: the ways through the write of a packet.
* `Assembled.handle`: every event keeps the invariant of the buffer.
* `sector_made`: what a sector is made of. The numbers begin at 0, unless the packet before the
  first one was refused for its size: that clears the buffer and keeps the number (`Torn`).
-/

namespace BleOta

variable {om : List UInt8} {c : Component}

/-- The number of the sector in a packet. -/
def packetSector (om : List UInt8) : Nat := (om.getD 0 0).toNat + (om.getD 1 0).toNat * 256

/-- The packet is for the sector `n`, or has the mark of the last sector. -/
def ForSector (n : Nat) (om : List UInt8) : Prop :=
  packetSector om = n ∨ (om.getD 0 0 = 0xff ∧ om.getD 1 0 = 0xff)

/-- The ways through `recvFwWrite`. -/
inductive PacketAct (om : List UInt8) (c : Component) : Component → PacketOut → Prop
  | unstarted : c.startOta = false → PacketAct om c c (.reply none espOk)
  | tooShort : om.length < 3 → PacketAct om c c (.reply none espErrInvalidSize)
  /-- Another sector, another packet, or the tail after one of these. -/
  | outOfOrder {e frame} : 3 ≤ om.length →
      PacketAct om c (c.restartSector e) (.reply frame espErrInvalidState)
  | shortTail : 3 ≤ om.length →
      PacketAct om c { c with fwBuf := c.fwBuf.map fun _ => [] } (.reply none espErrInvalidSize)
  | noBuffer {e c'} : c.fwBuf = none → c' = { c with sectorSequenceError := e } →
      PacketAct om c c' (.reply none espErrInvalidState)
  | overflow {e buf} : 3 ≤ om.length → c.fwBuf = some buf →
      PacketAct om c { c with sectorSequenceError := e, fwBuf := some [] }
        (.reply none espErrInvalidSize)
  | takes {buf} : 3 ≤ om.length → ForSector c.curSector om → om.getD 2 0 ≠ 0xff →
      om.getD 2 0 = UInt8.ofNat c.curPacket → c.fwBuf = some buf →
      (buf ++ om.drop 3).length ≤ otaBlockSize →
      PacketAct om c
        { c with
          sectorSequenceError := false, curPacket := u32 (c.curPacket + 1)
          fwBuf := some (buf ++ om.drop 3) } (.reply none espOk)
  | ends {buf} : 5 ≤ om.length → ForSector c.curSector om → om.getD 2 0 = 0xff →
      c.fwBuf = some buf → (buf ++ (om.drop 3).take (om.length - 5)).length ≤ otaBlockSize →
      PacketAct om c
        { c with
          curPacket := 0, curSector := u32 (c.curSector + 1), fwBuf := some []
          sectorSequenceError := false }
        (.sectorEnd (buf ++ (om.drop 3).take (om.length - 5))
          (deliveredBytes (buf ++ (om.drop 3).take (om.length - 5)))
          (successAck (om.getD 0 0) (om.getD 1 0)))

theorem writeOtaData_act (hlen : 3 ≤ om.length) (hsec : ForSector c.curSector om)
    (hseq : om.getD 2 0 = UInt8.ofNat c.curPacket ∨ om.getD 2 0 = 0xff) :
    PacketAct om c (writeOtaData om (om.getD 2 0) c).1 (writeOtaData om (om.getD 2 0) c).2 := by
  unfold writeOtaData
  by_cases htail : om.getD 2 0 = 0xff
  · simp only [htail, ne_eq, not_true_eq_false, if_false, true_and, if_true, sectorEndId]
    split
    · exact .shortTail hlen
    next hshort =>
    have h5 : om.length - 3 - 2 = om.length - 5 := Nat.sub_sub ..
    cases hb : c.fwBuf with
    | none => exact .noBuffer (e := c.sectorSequenceError) hb rfl
    | some buf =>
      dsimp only
      split
      · exact .overflow (e := c.sectorSequenceError) hlen hb
      next hfit =>
      rw [h5] at hfit ⊢
      refine .ends (by omega) hsec htail hb ?_
      rw [List.length_append, List.length_take, List.length_drop]
      omega
  · have hnum := hseq.resolve_right htail
    simp only [htail, ne_eq, not_false_eq_true, if_true, false_and, if_false]
    cases hb : c.fwBuf with
    | none => exact .noBuffer (e := false) hb (by rw [hb])
    | some buf =>
      dsimp only
      split
      · exact .overflow (e := false) hlen hb
      next hfit =>
      have hdrop : (om.drop 3).take (om.length - 3) = om.drop 3 :=
        List.take_of_length_le (by simp)
      rw [hdrop]
      refine .takes hlen hsec htail hnum hb ?_
      rw [List.length_append, List.length_drop]
      omega

/-- **Every packet** takes one of the ways. -/
theorem recvFwWrite_act (om : List UInt8) (c : Component) :
    PacketAct om c (recvFwWrite om c).1 (recvFwWrite om c).2 := by
  unfold recvFwWrite
  split
  next hs =>
    unfold espBleOtaWriteChr
    split
    next hlen => exact .tooShort hlen
    next hlen =>
    have hlen : 3 ≤ om.length := Nat.le_of_not_lt hlen
    dsimp only
    split
    · exact .outOfOrder hlen
    next hsec =>
    have hsec : ForSector c.curSector om := by
      by_cases h : packetSector om = c.curSector
      · exact .inl h
      · exact .inr (by_contra fun hm => hsec ⟨h, hm⟩)
    split
    · split
      next htail =>
        split
        · exact .outOfOrder hlen
        · exact writeOtaData_act hlen hsec (.inr htail)
      · exact .outOfOrder hlen
    next hseq => exact writeOtaData_act hlen hsec (.inl (not_not.mp hseq))
  next hs => exact .unstarted (by simpa using hs)

/-! ## The events of a run -/

/-- The component after an event. -/
def Component.handle (c : Component) : BleEvent → Component
  | .packet om => (recvFwWrite om c).1
  | .command om malloc => (bleOtaStartWriteChr om malloc c).1
  | .subscribe n => { c with otaNotification := n }
  | .disconnect => c

/-- The component after the events `es` from boot. -/
def Component.after (es : List BleEvent) : Component := es.foldl .handle .zero

theorem Component.after_snoc (es : List BleEvent) (e : BleEvent) :
    Component.after (es ++ [e]) = (Component.after es).handle e := by
  rw [Component.after, List.foldl_append]
  rfl

/-- An event that is nothing to the sector: a packet without a header, a command that is neither a
Start nor a Stop, a change of the subscriptions, a disconnect. -/
def BleEvent.Idle : BleEvent → Prop
  | .packet om => om.length < 3
  | .command om _ => ¬IsStart om ∧ ¬IsStop om
  | .subscribe _ | .disconnect => True

/-- Events with the packets `first`, `first + 1`, … of the sector `n`: the number after the last one
and the bytes of all of them. -/
inductive Row (n first : Nat) : Nat → List UInt8 → List BleEvent → Prop
  | start : Row n first first [] []
  | idle {seq buf es e} : Row n first seq buf es → e.Idle → Row n first seq buf (es ++ [e])
  | take {seq buf es om} : Row n first seq buf es → 3 ≤ om.length → ForSector n om →
      (om.getD 2 0).toNat = seq → Row n first (seq + 1) (buf ++ om.drop 3) (es ++ [.packet om])

/-- The last event is a packet that was refused for its size, although it has a header. -/
def Torn (es : List BleEvent) : Prop := ∃ pre om, es = pre ++ [.packet om] ∧ 3 ≤ om.length ∧
  (recvFwWrite om (.after pre)).2 = .reply none espErrInvalidSize

/-- What is in the buffer of the component, after the events `es`. -/
structure Assembled (es : List BleEvent) (buf : List UInt8) (c : Component) : Prop where
  row : ∃ pre mid, es = pre ++ mid ∧
    Row c.curSector (Component.after pre).curPacket c.curPacket buf mid ∧
    ((Component.after pre).curPacket = 0 ∨ Torn pre)
  fits : buf.length ≤ otaBlockSize

variable {es : List BleEvent} {e : BleEvent} {buf : List UInt8}

theorem Assembled.idle {c' : Component} (h : Assembled es buf c) (he : e.Idle)
    (hs : c'.curSector = c.curSector) (hp : c'.curPacket = c.curPacket) :
    Assembled (es ++ [e]) buf c' := by
  obtain ⟨⟨pre, mid, rfl, hr, h0⟩, hf⟩ := h
  refine ⟨⟨pre, mid ++ [e], List.append_assoc .., ?_, h0⟩, hf⟩
  rw [hs, hp]
  exact .idle hr he

/-- The buffer has just been cleared. -/
theorem Assembled.cleared {c' : Component} (hc : Component.after es = c')
    (h0 : c'.curPacket = 0 ∨ Torn es) : Assembled es [] c' :=
  ⟨⟨es, [], (List.append_nil _).symm, hc ▸ .start, hc ▸ h0⟩, Nat.zero_le _⟩

/-- The component after the events `es`: the number of the packet fits in its byte, there is no
buffer without a Start, and what is in it is assembled. -/
structure AssemblyOk (es : List BleEvent) (c : Component) : Prop where
  seq : c.curPacket < 256
  stopped : c.startOta = false → c.fwBuf = none
  assembled : ∀ buf, c.fwBuf = some buf → Assembled es buf c

/-- A number below 255 in the byte of a packet. -/
theorem seq_of_byte {b : UInt8} {n : Nat} (h : b = UInt8.ofNat n) (hn : n < 256) (hb : b ≠ 0xff) :
    b.toNat = n ∧ n < 255 := by
  have hv : b.toNat = n := by rw [h, UInt8.toNat_ofNat', Nat.mod_eq_of_lt hn]
  refine ⟨hv, ?_⟩
  have : b.toNat ≠ 255 := fun h => hb (UInt8.toNat_inj.mp h)
  omega

theorem ignored_idle {malloc : Bool} (h : bleOtaStartWriteChr om malloc c = (c, .ignored)) :
    BleEvent.Idle (.command om malloc) := by
  have hout : (bleOtaStartWriteChr om malloc c).2 = .ignored := congrArg Prod.snd h
  unfold bleOtaStartWriteChr at hout
  split at hout
  · cases hout
  next hstart =>
    split at hout
    · cases hout
    next hstop => exact ⟨hstart, hstop⟩

/-- There is a buffer only after a Start. -/
theorem AssemblyOk.started (h : AssemblyOk es c) (hb : c.fwBuf = some buf) :
    c.startOta ≠ false := by
  intro hs
  rw [h.stopped hs] at hb
  cases hb

theorem AssemblyOk.command (hes : Component.after es = c) (h : AssemblyOk es c) (om : List UInt8)
    (malloc : Bool) :
    AssemblyOk (es ++ [.command om malloc]) (bleOtaStartWriteChr om malloc c).1 := by
  have hafter : Component.after (es ++ [.command om malloc]) =
      (bleOtaStartWriteChr om malloc c).1 := by
    rw [Component.after_snoc, hes]
    rfl
  rcases bleOtaStartWriteChr_cases om malloc c with ⟨-, len, frame, he, -⟩ | ⟨-, frame, he, -⟩ | he
  · rw [he] at hafter ⊢
    refine ⟨by simp, by simp, fun buf hb => ?_⟩
    cases malloc <;> cases hb
    exact .cleared hafter (.inl rfl)
  · rw [he]
    exact ⟨by simp, fun _ => rfl, fun buf hb => by cases hb⟩
  · rw [he]
    exact ⟨h.seq, h.stopped, fun buf hb => (h.assembled buf hb).idle (ignored_idle he) rfl rfl⟩

/-- The next packet of the sector. -/
theorem Assembled.take {c' : Component} (h : Assembled es buf c) (hlen : 3 ≤ om.length)
    (hsec : ForSector c.curSector om) (hbyte : (om.getD 2 0).toNat = c.curPacket)
    (hs : c'.curSector = c.curSector) (hp : c'.curPacket = c.curPacket + 1)
    (hfit : (buf ++ om.drop 3).length ≤ otaBlockSize) :
    Assembled (es ++ [.packet om]) (buf ++ om.drop 3) c' := by
  obtain ⟨⟨pre, mid, rfl, hr, h0⟩, -⟩ := h
  refine ⟨⟨pre, mid ++ [.packet om], List.append_assoc .., ?_, h0⟩, hfit⟩
  rw [hs, hp]
  exact .take hr hlen hsec hbyte

theorem AssemblyOk.packet (hes : Component.after es = c) (h : AssemblyOk es c) (om : List UInt8) :
    AssemblyOk (es ++ [.packet om]) (recvFwWrite om c).1 := by
  have hafter : Component.after (es ++ [.packet om]) = (recvFwWrite om c).1 := by
    rw [Component.after_snoc, hes]
    rfl
  have hact := recvFwWrite_act om c
  -- A packet with a header that is refused for its size.
  have htorn (hlen : 3 ≤ om.length)
      (ho : (recvFwWrite om c).2 = .reply none espErrInvalidSize) : Torn (es ++ [.packet om]) :=
    ⟨es, om, rfl, hlen, hes ▸ ho⟩
  generalize hc' : (recvFwWrite om c).1 = c' at hact hafter
  generalize ho : (recvFwWrite om c).2 = out at hact htorn
  cases hact with
  | unstarted hs => exact ⟨h.seq, h.stopped, fun buf hb => absurd hs (h.started hb)⟩
  | tooShort hlen =>
    exact ⟨h.seq, h.stopped, fun buf hb => (h.assembled buf hb).idle hlen rfl rfl⟩
  | outOfOrder =>
    refine ⟨by simp [Component.restartSector], fun hs => ?_, fun buf hb => ?_⟩
    · simp [Component.restartSector, h.stopped hs]
    · obtain ⟨_, -, rfl⟩ := Option.map_eq_some_iff.mp hb
      exact .cleared hafter (.inl rfl)
  | shortTail hlen =>
    refine ⟨h.seq, fun hs => ?_, fun buf hb => ?_⟩
    · simp [h.stopped hs]
    · obtain ⟨_, -, rfl⟩ := Option.map_eq_some_iff.mp hb
      exact .cleared hafter (.inr (htorn hlen rfl))
  | noBuffer hb he =>
    subst he
    refine ⟨h.seq, fun _ => hb, fun buf hbuf => ?_⟩
    rw [hb] at hbuf
    cases hbuf
  | @overflow e old hlen hold =>
    refine ⟨h.seq, fun hs => absurd hs (h.started hold), fun buf hb => ?_⟩
    cases hb
    exact .cleared hafter (.inr (htorn hlen rfl))
  | @takes old hlen hsec htail hnum hold hfit =>
    obtain ⟨hbyte, hlt⟩ := seq_of_byte hnum h.seq htail
    have hu : u32 (c.curPacket + 1) = c.curPacket + 1 := by
      unfold u32
      omega
    refine ⟨?_, fun hs => absurd hs (h.started hold), fun buf hb => ?_⟩
    · show u32 (c.curPacket + 1) < 256
      omega
    · cases hb
      exact (h.assembled old hold).take hlen hsec hbyte rfl hu hfit
  | @ends old hlen hsec htail hold hfit =>
    refine ⟨by simp, fun hs => absurd hs (h.started hold), fun buf hb => ?_⟩
    cases hb
    exact .cleared hafter (.inl rfl)

/-- **Every event** keeps the invariant. -/
theorem AssemblyOk.handle (hes : Component.after es = c) (h : AssemblyOk es c) (e : BleEvent) :
    AssemblyOk (es ++ [e]) (c.handle e) := by
  cases e with
  | subscribe n => exact ⟨h.seq, h.stopped, fun buf hb => (h.assembled buf hb).idle trivial rfl rfl⟩
  | disconnect => exact ⟨h.seq, h.stopped, fun buf hb => (h.assembled buf hb).idle trivial rfl rfl⟩
  | command om malloc => exact h.command hes om malloc
  | packet om => exact h.packet hes om

theorem AssemblyOk.after (es : List BleEvent) : AssemblyOk es (.after es) := by
  induction es using List.reverseRecOn with
  | nil => exact ⟨by decide, fun _ => rfl, fun buf hb => by cases hb⟩
  | append_singleton es e ih =>
    rw [Component.after_snoc]
    exact ih.handle rfl e

namespace Device

variable {B : Board} {d d' : Device} {l : DevLabel} {ls : List DevLabel}

/-- The events among the steps of a run. -/
def bleEvents (ls : List DevLabel) : List BleEvent :=
  ls.filterMap fun
    | .ble e => some e
    | _ => none

/-- Only the events change the component. -/
theorem step_comp (hst : (system B).step l d = some d') :
    d'.comp = match l with
      | .ble e => d.comp.handle e
      | _ => d.comp := by
  cases step_act hst with
  | reply _ ho | sectorEnd _ ho | start _ ho | stop _ ho | otherCommand _ ho =>
    simp only [Component.handle, ho, emit_comp]
  | _ => rfl

/-- The component of a run is the one after its events. -/
theorem exec_comp (h : (system B).exec ls .init = some d) : d.comp = .after (bleEvents ls) := by
  induction ls using List.reverseRecOn generalizing d with
  | nil =>
    cases h
    rfl
  | append_singleton ls l ih =>
    obtain ⟨d₀, h₀, hst⟩ := Lib.Lts.exec_snoc.mp h
    have hev : bleEvents (ls ++ [l]) = bleEvents ls ++ bleEvents [l] := List.filterMap_append
    rw [hev, step_comp hst, ih h₀]
    cases l with
    | ble e => exact (Component.after_snoc (bleEvents ls) e).symm
    | nimble | pump => exact congrArg Component.after (List.append_nil _).symm

/-- The bytes `sector` of the sector `n`: of packets among the events `es`, up to the number `seq`,
and of the tail packet `om` without its checksum. -/
structure MadeOf (es : List BleEvent) (n seq : Nat) (om sector : List UInt8) : Prop where
  row : ∃ pre mid buf, es = pre ++ mid ∧ Row n (Component.after pre).curPacket seq buf mid ∧
    ((Component.after pre).curPacket = 0 ∨ Torn pre) ∧
    sector = buf ++ (om.drop 3).take (om.length - 5)
  fits : sector.length ≤ otaBlockSize
  tail : 5 ≤ om.length ∧ om.getD 2 0 = 0xff ∧ ForSector n om

/-- The number of the packet fits in its byte, and what is in the buffer in its 4098 bytes. -/
def InBounds (c : Component) : Prop :=
  c.curPacket < 256 ∧ ∀ buf, c.fwBuf = some buf → buf.length ≤ otaBlockSize

theorem exec_assembled (h : (system B).exec ls .init = some d) :
    AssemblyOk (bleEvents ls) d.comp := by
  rw [exec_comp h]
  exact .after (bleEvents ls)

theorem inBounds (h : (system B).exec ls .init = some d) : InBounds d.comp :=
  ⟨(exec_assembled h).seq, fun buf hb => ((exec_assembled h).assembled buf hb).fits⟩

/-- A packet that ends a sector after a run. -/
theorem made_of_end (h : (system B).exec ls .init = some d) {om sector delivered frame : List UInt8}
    {d' : Device} (hst : d.bleStep (.packet om) = some d')
    (hn : d'.nimble = .recvCheck sector delivered frame) :
    MadeOf (bleEvents ls) d.comp.curSector d.comp.curPacket om sector ∧
      (sector.length < otaBlockSize ∧ delivered = sector ∨
        sector.length = otaBlockSize ∧ delivered = sector.take 4096) := by
  have hidle : d.nimble = .idle := by
    by_contra hne
    rw [bleStep, if_pos hne] at hst
    cases hst
  have hact := recvFwWrite_act om d.comp
  cases bleStep_act (B := B) hst with
  | reply =>
    have : d.nimble = .recvCheck sector delivered frame := hn
    rw [hidle] at this
    cases this
  | @sectorEnd _ sector' delivered' frame' c _ ho =>
    cases hn
    rw [ho] at hact
    cases hact with
    | @ends buf hlen hsec htail hb hfit =>
      obtain ⟨⟨pre, mid, hes, hr, h0⟩, -⟩ := (exec_assembled h).assembled buf hb
      refine ⟨⟨⟨pre, mid, buf, hes, hr, h0, rfl⟩, hfit, hlen, htail, hsec⟩, ?_⟩
      unfold deliveredBytes
      split
      next hlt => exact .inl ⟨hlt, rfl⟩
      next hge => exact .inr ⟨Nat.le_antisymm hfit (Nat.le_of_not_lt hge), rfl⟩

/-- Only a packet gives the firmware callback a sector. -/
theorem packet_of_recvCheck {sector delivered frame : List UInt8} (hidle : d.nimble = .idle)
    (hst : (system B).step l d = some d') (hn : d'.nimble = .recvCheck sector delivered frame) :
    ∃ om, l = .ble (.packet om) ∧ d.bleStep (.packet om) = some d' := by
  cases l with
  | ble e =>
    cases e with
    | packet om => exact ⟨om, rfl, hst⟩
    | command om malloc =>
      have hact : Act B d (.ble (.command om malloc)) d' := step_act hst
      cases hact with
      | start | stop => cases hn
      | otherCommand => exact absurd (hidle.symm.trans hn) (by simp)
    | subscribe n =>
      have hact : Act B d (.ble (.subscribe n)) d' := step_act hst
      cases hact
      exact absurd (hidle.symm.trans hn) (by simp)
    | disconnect =>
      have hact : Act B d (.ble .disconnect) d' := step_act hst
      cases hact
      exact absurd (hidle.symm.trans hn) (by simp)
  | nimble n =>
    change d.nimbleStep n = some d' at hst
    rw [nimbleStep, hidle] at hst
    cases hst
  | pump n idf =>
    have hkeep : d'.nimble = d.nimble := by cases step_act hst <;> rfl
    exact absurd (hkeep.symm.trans hn) (by simp [hidle])

/-- **What a sector is made of**: when a packet ends the sector `n` in a run, the sector is the
payloads of packets of `n` with consecutive numbers, with nothing but idle events between them, and
of the tail packet without its checksum. The numbers begin at 0, or the event before the first one
was a packet that was refused for its size, and the beginning of the sector is lost. The firmware
callback gets the sector; of a full buffer of 4098 bytes it gets the first 4096. -/
theorem sector_made (h : (system B).exec ls .init = some d) :
    InBounds d.comp ∧
      ∀ {om sector delivered frame : List UInt8} {d' : Device},
        d.bleStep (.packet om) = some d' → d'.nimble = .recvCheck sector delivered frame →
          MadeOf (bleEvents ls) d.comp.curSector d.comp.curPacket om sector ∧
            (sector.length < otaBlockSize ∧ delivered = sector ∨
              sector.length = otaBlockSize ∧ delivered = sector.take 4096) :=
  ⟨inBounds h, fun hst hn => made_of_end h hst hn⟩

/-- A Start, packet 0 with the byte 7, and a tail packet without a checksum. -/
def tornSector : List DevLabel :=
  startCommand 8 :: startCallback ++
    [.ble (.packet [0x00, 0x00, 0x00, 0x07]), .ble (.packet [0x00, 0x00, 0xff])]

/-- The next tail packet gives the sector without the byte 7, and it is acknowledged. -/
theorem sector_made_tornSector :
    MadeOf (bleEvents tornSector) 0 1 [0x00, 0x00, 0xff, 0x09, 0x00, 0x00] [0x09] ∧
      ((system .otaSlots).run (tornSector ++ [wholePacket 0 [0x09]]) .init).nimble =
        .recvCheck [0x09] [0x09] (successAck 0x00 0x00) := by
  have hrun : (system .otaSlots).exec tornSector .init =
      some ((system .otaSlots).run tornSector .init) := rfl
  exact ⟨((sector_made hrun).2 rfl rfl).1, rfl⟩

/-! ## The checksum of a sector -/

/-- The packets are the same, or tail packets that differ in the checksum. -/
def SameButCrc (om om' : List UInt8) : Prop :=
  om = om' ∨ (om.length = om'.length ∧ 5 ≤ om.length ∧ om.getD 2 0 = 0xff ∧
    om.take (om.length - 2) = om'.take (om.length - 2))

/-- The labels are the same, or packets that differ in the checksum. -/
def LikeLabel : DevLabel → DevLabel → Prop
  | .ble (.packet om), .ble (.packet om') => SameButCrc om om'
  | l, l' => l = l'

theorem SameButCrc.recvFwWrite_eq {om om' : List UInt8} (h : SameButCrc om om') (c : Component) :
    recvFwWrite om c = recvFwWrite om' c := by
  rcases h with rfl | ⟨hlen, h5, htail, htake⟩
  · rfl
  have hbyte (i : Nat) (hi : i < 3) : om.getD i 0 = om'.getD i 0 := by
    have hi' : i < om.length - 2 := by omega
    have hget := congrArg (fun x : List UInt8 => x[i]?) htake
    simp only [List.getElem?_take_of_lt hi'] at hget
    rw [List.getD_eq_getElem?_getD, List.getD_eq_getElem?_getD, hget]
  have hdata : (om.drop 3).take (om.length - 3 - 2) = (om'.drop 3).take (om.length - 3 - 2) := by
    have := congrArg (·.drop 3) htake
    simpa [List.drop_take, Nat.sub_right_comm] using this
  have htail' : om'.getD 2 0 = 0xff := (hbyte 2 (by omega)) ▸ htail
  have hwrite : writeOtaData om 0xff c = writeOtaData om' 0xff c := by
    unfold writeOtaData
    simp only [ne_eq, not_true_eq_false, if_false, true_and, if_true, sectorEndId, ← hlen, hdata,
      hbyte 0 (by omega), hbyte 1 (by omega)]
  unfold recvFwWrite espBleOtaWriteChr
  simp only [← hlen, hbyte 0 (by omega), hbyte 1 (by omega), htail, htail', hwrite]

theorem LikeLabel.step_eq {l l' : DevLabel} (h : LikeLabel l l') :
    (system B).step l d = (system B).step l' d := by
  unfold LikeLabel at h
  split at h
  next om om' =>
    show bleStep (.packet om) d = bleStep (.packet om') d
    unfold bleStep
    simp only [h.recvFwWrite_eq]
  · rw [h]

/-- **The checksums of the sectors are never looked at**: with any other checksums in the tail
packets, a run of the device is the same. -/
theorem checksum_ignored {ls' : List DevLabel} (h : List.Forall₂ LikeLabel ls ls') :
    (system B).exec ls d = (system B).exec ls' d := by
  induction h generalizing d with
  | nil => rfl
  | cons hl _ ih =>
    show ((system B).step _ d).bind _ = ((system B).step _ d).bind _
    rw [hl.step_eq]
    congr 1
    funext d'
    exact ih

/-- A sector with its checksum, and with another one. -/
theorem checksum_ignored_wrong :
    (system .otaSlots).exec (startCommand 8 :: startCallback ++
        [.ble (.packet [0x00, 0x00, 0xff, 0x01, 0x21, 0x10])]) .init =
      (system .otaSlots).exec (startCommand 8 :: startCallback ++
        [.ble (.packet [0x00, 0x00, 0xff, 0x01, 0x00, 0x00])]) .init := by
  refine checksum_ignored ?_
  have hrfl (ls : List DevLabel) : List.Forall₂ LikeLabel ls ls := by
    induction ls with
    | nil => exact .nil
    | cons l ls ih =>
      refine .cons ?_ ih
      unfold LikeLabel
      split
      · exact .inl rfl
      · rfl
  refine List.rel_append (hrfl _) (.cons (.inr ⟨rfl, by decide, rfl, rfl⟩) .nil)

end Device

end BleOta
