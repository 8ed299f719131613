import BleOta.Component.Defs

/-!
# What the component does with a packet

* `recvFwWrite_frame`: no packet changes the declared length, the Start flag or the subscriptions.
* `recvFwWrite_ok`: only the end of a sector is acknowledged with the status 0.
* `bleOtaStartWriteChr_cases`: a command is a Start, a Stop, or it is ignored.
-/

namespace BleOta

variable {om : List UInt8} {c : Component}

/-- The frame has the status 0x0000: it acknowledges a sector. -/
def SuccessStatus (frame : List UInt8) : Prop := frame.getD 2 0 = 0 ∧ frame.getD 3 0 = 0

instance (frame : List UInt8) : Decidable (SuccessStatus frame) := instDecidableAnd

theorem successStatus_cmdAck {b0 b1 b2 b3 b4 b5 : UInt8} :
    SuccessStatus (cmdAck b0 b1 b2 b3 b4 b5) ↔ b2 = 0 ∧ b3 = 0 := Iff.rfl

/-- What the packets leave as it is. -/
def Component.SameSession (c c' : Component) : Prop :=
  c'.otaTotalLen = c.otaTotalLen ∧ c'.startOta = c.startOta ∧
    c'.otaNotification = c.otaNotification

theorem writeOtaData_frame {p : UInt8} : c.SameSession (writeOtaData om p c).1 := by
  have hc : c.SameSession (if p ≠ 0xff then { c with sectorSequenceError := false } else c) := by
    split <;> exact ⟨rfl, rfl, rfl⟩
  unfold writeOtaData
  generalize (if p ≠ 0xff then { c with sectorSequenceError := false } else c) = c₁ at hc ⊢
  dsimp only
  repeat' split
  all_goals exact hc

theorem espBleOtaWriteChr_frame : c.SameSession (espBleOtaWriteChr om c).1 := by
  unfold espBleOtaWriteChr
  dsimp only
  repeat' split
  all_goals first | exact ⟨rfl, rfl, rfl⟩ | exact writeOtaData_frame

/-- No packet changes the declared length, the Start flag or the subscriptions. -/
theorem recvFwWrite_frame (om : List UInt8) (c : Component) :
    c.SameSession (recvFwWrite om c).1 := by
  unfold recvFwWrite
  split
  · exact espBleOtaWriteChr_frame
  · exact ⟨rfl, rfl, rfl⟩

/-- What a packet is answered with: an error or nothing, or the end of a sector. -/
def PacketOut.Ok : PacketOut → Prop
  | .reply frame _ => ∀ f ∈ frame, ¬SuccessStatus f
  | .sectorEnd sector delivered frame =>
    delivered = deliveredBytes sector ∧ ∃ b0 b1, frame = successAck b0 b1

theorem sectorNack_status (b0 b1 : UInt8) (n : Nat) : ¬SuccessStatus (sectorNack b0 b1 n) := by
  simp [sectorNack, successStatus_cmdAck]

theorem writeOtaData_ok {p : UInt8} : (writeOtaData om p c).2.Ok := by
  unfold writeOtaData
  generalize (if p ≠ 0xff then { c with sectorSequenceError := false } else c) = c₁
  dsimp only
  repeat' split
  all_goals first | exact ⟨rfl, _, _, rfl⟩ | simp [PacketOut.Ok]

theorem recvFwWrite_ok (om : List UInt8) (c : Component) : (recvFwWrite om c).2.Ok := by
  unfold recvFwWrite espBleOtaWriteChr
  dsimp only
  repeat' split
  all_goals first | exact writeOtaData_ok | simp [PacketOut.Ok, sectorNack_status]

/-- The bytes of a Start command. -/
def IsStart (om : List UInt8) : Prop := om.getD 0 0 = 0x01 ∧ om.getD 1 0 = 0x00

/-- The bytes of a Stop command. -/
def IsStop (om : List UInt8) : Prop := om.getD 0 0 = 0x02 ∧ om.getD 1 0 = 0x00

/-- **What a command does**: a Start, a Stop, or nothing. -/
theorem bleOtaStartWriteChr_cases (om : List UInt8) (malloc : Bool) (c : Component) :
    (IsStart om ∧ ∃ len frame, bleOtaStartWriteChr om malloc c =
        ({ c with
            startOta := true, otaTotalLen := u32 len, sectorSequenceError := false, curSector := 0,
            curPacket := 0, fwBuf := if malloc then some [] else none }, .started frame) ∧
        ¬SuccessStatus frame) ∨
    (IsStop om ∧ ∃ frame, bleOtaStartWriteChr om malloc c =
        ({ c with
            startOta := false, otaTotalLen := 0, sectorSequenceError := false, curSector := 0,
            curPacket := 0, fwBuf := none }, .stopped frame) ∧ ¬SuccessStatus frame) ∨
    bleOtaStartWriteChr om malloc c = (c, .ignored) := by
  unfold bleOtaStartWriteChr
  split
  next hs => exact .inl ⟨hs, _, _, rfl, by simp [successStatus_cmdAck]⟩
  · split
    next hs => exact .inr (.inl ⟨hs, _, rfl, by simp [successStatus_cmdAck]⟩)
    · exact .inr (.inr rfl)

end BleOta
