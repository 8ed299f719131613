import BleOta.Component.Lemmas
import BleOta.Host.Defs

/-!
# The packets of a sector, at the host and at the component

* `Planned`: the packets that are left of a sector. `planSectorPackets_planned`: the packets that
  `plan_sector_packets` plans.
* `Holds`: the component has the first bytes of a sector. `Holds.more`, `Holds.tail`: it takes the
  next packet of the sector; the tail packet gives the sector to the firmware callback.
* `Filling`: the same of a component that has a Start.
* `Filling.wrongSector`, `Filling.wrongPacket`: it answers any other packet with an ATT error, and
  restarts its sector (`Filling.restart`).
-/

namespace BleOta.Host

variable {sector seq chunk offset mtuSize : Nat} {data fw payload buf : List UInt8} {c : Component}

/-! ## At the host -/

/-- The packets that are left after `seq` packets with `offset` bytes of the sector. -/
inductive Planned (chunk sector : Nat) (data : List UInt8) : Nat → Nat → List (List UInt8) → Prop
  | tail {seq offset : Nat} : offset < data.length → data.length ≤ offset + chunk →
      Planned chunk sector data seq offset
        [wire sector 0xff (data.drop offset ++ packH (crc16Ccitt data))]
  | more {seq offset : Nat} {packets : List (List UInt8)} : offset + chunk < data.length →
      Planned chunk sector data (seq + 1) (offset + chunk) packets →
      Planned chunk sector data seq offset
        (wire sector seq ((data.drop offset).take chunk) :: packets)

theorem packet_eq (h : seq < 256) : packet sector seq payload = .ok (wire sector seq payload) :=
  if_pos h

/-- A sector has no more than 241 packets. -/
theorem seq_lt (hchunk : 17 ≤ chunk) (hoff : seq * chunk < 4096) : seq < 241 := by
  by_contra h
  have h1 : 241 * 17 ≤ seq * chunk := Nat.mul_le_mul (by omega) hchunk
  omega

theorem planLoop_planned (hchunk : 17 ≤ chunk) (hlen : data.length ≤ 4096) {fuel : Nat}
    (hfuel : data.length - offset ≤ fuel) (hoff : offset = seq * chunk)
    (hlt : offset < data.length) :
    ∃ packets, planLoop chunk sector data fuel seq offset = .ok packets ∧
      Planned chunk sector data seq offset packets := by
  induction fuel generalizing seq offset with
  | zero => omega
  | succ fuel ih =>
    have hpiece : ((data.drop offset).take chunk).length = min chunk (data.length - offset) := by
      simp
    have hseq : seq < 241 := seq_lt hchunk (by omega)
    unfold planLoop
    rw [if_pos hlt]
    by_cases hlast : data.length ≤ offset + chunk
    · -- the tail packet, and the end of the loop
      have htake : (data.drop offset).take chunk = data.drop offset :=
        List.take_of_length_le (by rw [List.length_drop]; omega)
      have hend : offset + (data.drop offset).length = data.length := by
        rw [List.length_drop]
        omega
      have hnil : planLoop chunk sector data fuel (seq + 1) data.length = .ok [] := by
        cases fuel with
        | zero => rfl
        | succ fuel =>
          unfold planLoop
          exact if_neg (Nat.lt_irrefl _)
      refine ⟨_, ?_, .tail hlt hlast⟩
      simp only [htake, hend, Nat.sub_self, if_true, packet_eq (show 0xff < 256 by decide), hnil]
      rfl
    · have hnext : offset + ((data.drop offset).take chunk).length = offset + chunk := by omega
      have hrem : data.length - (offset + chunk) ≠ 0 := by omega
      have hmul : offset + chunk = (seq + 1) * chunk := by
        rw [Nat.add_mul, Nat.one_mul, hoff]
      obtain ⟨packets, hp, hpl⟩ := ih (by omega) hmul (by omega)
      refine ⟨_, ?_, .more (by omega) hpl⟩
      simp only [hnext, if_neg hrem, packet_eq (show seq < 256 by omega), hp]
      rfl

theorem sectorData_length_le : (sectorData fw sector).length ≤ sectorSize := List.length_take_le ..

theorem sectorData_length_pos (h : sector < totalSectors fw) :
    0 < (sectorData fw sector).length := by
  unfold totalSectors sectorSize at h
  simp only [sectorData, List.length_take, List.length_drop, sectorSize]
  omega

/-- **What `plan_sector_packets` plans** for a sector of the firmware. -/
theorem planSectorPackets_planned (hmtu : 23 ≤ mtuSize) (hs : sector < totalSectors fw) :
    ∃ packets, planSectorPackets mtuSize sector fw = .ok packets ∧
      Planned (mtuSize - 6) sector (sectorData fw sector) 0 0 packets := by
  have hloop : ∃ packets, planLoop (mtuSize - 6) sector (sectorData fw sector)
        (sectorData fw sector).length 0 0 = .ok packets ∧
      Planned (mtuSize - 6) sector (sectorData fw sector) 0 0 packets :=
    planLoop_planned (by omega) sectorData_length_le (Nat.sub_le ..) (Nat.zero_mul _).symm
      (sectorData_length_pos hs)
  obtain ⟨packets, hp, hpl⟩ := hloop
  have hne : packets ≠ [] := by
    rintro rfl
    cases hpl
  refine ⟨packets, ?_, hpl⟩
  unfold planSectorPackets
  rw [if_neg (by simp only [packetOverhead, tailCrcLen]; omega)]
  rw [show mtuSize - 3 - packetOverhead = mtuSize - 6 from Nat.sub_sub ..]
  simp only [hp, bind, Except.bind, if_neg hne]
  rfl

/-! ## At the component -/

/-- The buffer of the component has the bytes `buf` of the sector `sector`, from `seq` packets. -/
structure Holds (sector seq : Nat) (buf : List UInt8) (c : Component) : Prop where
  sector : c.curSector = sector
  seq : c.curPacket = seq
  buf : c.fwBuf = some buf

/-- The component has the bytes `buf` of the sector `sector`, from `seq` packets. -/
structure Filling (sector seq : Nat) (buf : List UInt8) (c : Component) : Prop where
  started : c.startOta = true
  sector : c.curSector = sector
  seq : c.curPacket = seq
  buf : c.fwBuf = some buf

theorem Filling.holds (h : Filling sector seq buf c) : Holds sector seq buf c :=
  ⟨h.sector, h.seq, h.buf⟩

/-- The Start flag is the one before the packet. -/
theorem Holds.filling {sector' seq' : Nat} {buf' pkt : List UInt8}
    (h : Holds sector' seq' buf' (espBleOtaWriteChr pkt c).1) (hs : c.startOta = true) :
    Filling sector' seq' buf' (espBleOtaWriteChr pkt c).1 :=
  ⟨espBleOtaWriteChr_frame.2.1.trans hs, h.sector, h.seq, h.buf⟩

theorem wire_length : (wire sector seq payload).length = payload.length + 3 := by
  simp [wire, packH]

theorem wire_drop : (wire sector seq payload).drop 3 = payload := rfl

theorem wire_seq : (wire sector seq payload).getD 2 0 = UInt8.ofNat seq := rfl

/-- The sector that the component reads in a packet. -/
theorem wire_sector (seq : Nat) (payload : List UInt8) (h : sector < 65536) :
    ((wire sector seq payload).getD 0 0).toNat + ((wire sector seq payload).getD 1 0).toNat * 256 =
      sector := by
  have h0 : (wire sector seq payload).getD 0 0 = UInt8.ofNat (sector % 65536) := rfl
  have h1 : (wire sector seq payload).getD 1 0 = UInt8.ofNat (sector % 65536 / 256) := rfl
  rw [h0, h1, UInt8.toNat_ofNat', UInt8.toNat_ofNat']
  omega

/-- A packet of the sector that is the next one, or the tail with no error before it. -/
theorem Holds.write (h : Holds sector seq buf c) (hs : sector < 65536) {seq' : Nat}
    (hseq : UInt8.ofNat seq' = UInt8.ofNat seq ∨
      (UInt8.ofNat seq' = 0xff ∧ c.sectorSequenceError = false)) :
    espBleOtaWriteChr (wire sector seq' payload) c =
      writeOtaData (wire sector seq' payload) (UInt8.ofNat seq') c := by
  unfold espBleOtaWriteChr
  rw [if_neg (by rw [wire_length]; omega)]
  simp only [wire_sector _ _ hs, wire_seq, h.sector, h.seq]
  rcases hseq with hseq | ⟨htail, hord⟩
  · simp [hseq]
  · simp [htail, hord]

theorem ofNat_ne_ff (hq : seq < 255) : UInt8.ofNat seq ≠ 0xff := by
  intro hx
  have := congrArg UInt8.toNat hx
  rw [UInt8.toNat_ofNat'] at this
  simp at this
  omega

/-- The next packet of the sector is taken. -/
theorem Holds.more (h : Holds sector seq buf c) (payload : List UInt8) (hs : sector < 65536)
    (hq : seq < 255) (hlen : buf.length + payload.length ≤ otaBlockSize) :
    ∃ c', espBleOtaWriteChr (wire sector seq payload) c = (c', .reply none espOk) ∧
      Holds sector (seq + 1) (buf ++ payload) c' ∧ c'.sectorSequenceError = false := by
  have hne : UInt8.ofNat seq ≠ 0xff := ofNat_ne_ff hq
  have hpl : (wire sector seq payload).length - 3 = payload.length := by
    rw [wire_length]
    rfl
  have hu : u32 (seq + 1) = seq + 1 := by
    unfold u32
    omega
  rw [h.write hs (.inl rfl)]
  unfold writeOtaData
  simp only [hne, ne_eq, not_false_eq_true, if_true, false_and, if_false, hpl, h.buf, wire_drop,
    List.take_length, if_neg (Nat.not_lt.mpr hlen), h.seq, hu]
  refine ⟨_, rfl, ?_, rfl⟩
  exact ⟨h.sector, rfl, rfl⟩

/-- The tail packet of the sector is taken, and the callback gets the sector. -/
theorem Holds.tail (h : Holds sector seq buf c) (payload : List UInt8) (crc : Nat)
    (hs : sector < 65536) (hord : c.sectorSequenceError = false)
    (hlen : buf.length + payload.length < otaBlockSize) :
    ∃ c' b0 b1, espBleOtaWriteChr (wire sector 0xff (payload ++ packH crc)) c =
        (c', .sectorEnd (buf ++ payload) (buf ++ payload) (successAck b0 b1)) ∧
      Holds (sector + 1) 0 [] c' ∧ c'.sectorSequenceError = false := by
  have hpl : (wire sector 0xff (payload ++ packH crc)).length - 3 = payload.length + 2 := by
    rw [wire_length]
    simp [packH]
  have htk : (payload ++ packH crc).take payload.length = payload := List.take_left
  have hu : u32 (sector + 1) = sector + 1 := by
    unfold u32
    omega
  have hdel : deliveredBytes (buf ++ payload) = buf ++ payload :=
    if_pos (by rwa [List.length_append])
  have hff : UInt8.ofNat 0xff = 0xff := rfl
  rw [h.write hs (.inr ⟨hff, hord⟩)]
  unfold writeOtaData
  simp only [hff, ne_eq, not_true_eq_false, if_false, true_and, hpl, sectorEndId,
    if_neg (show ¬payload.length + 2 < 2 by omega), if_true, Nat.add_sub_cancel, h.buf, wire_drop,
    htk, if_neg (Nat.not_lt.mpr (Nat.le_of_lt hlen)), h.sector, hu, hdel]
  refine ⟨_, _, _, rfl, ?_, rfl⟩
  exact ⟨rfl, rfl, rfl⟩

theorem recvFwWrite_started (h : c.startOta = true) (pkt : List UInt8) :
    recvFwWrite pkt c = espBleOtaWriteChr pkt c := if_pos h

/-- The component takes the next packet of the sector. -/
theorem Filling.more (h : Filling sector seq buf c) (payload : List UInt8) (hs : sector < 65536)
    (hq : seq < 255) (hlen : buf.length + payload.length ≤ otaBlockSize) :
    ∃ c', recvFwWrite (wire sector seq payload) c = (c', .reply none espOk) ∧
      Filling sector (seq + 1) (buf ++ payload) c' ∧ c'.sectorSequenceError = false := by
  obtain ⟨c', heq, hc', hord⟩ := h.holds.more payload hs hq hlen
  obtain rfl : (espBleOtaWriteChr (wire sector seq payload) c).1 = c' := by rw [heq]
  exact ⟨_, (recvFwWrite_started h.started _).trans heq, hc'.filling h.started, hord⟩

/-- The component takes the tail packet of the sector, and gives the sector to the callback. -/
theorem Filling.tail (h : Filling sector seq buf c) (payload : List UInt8) (crc : Nat)
    (hs : sector < 65536) (hord : c.sectorSequenceError = false)
    (hlen : buf.length + payload.length < otaBlockSize) :
    ∃ c' b0 b1, recvFwWrite (wire sector 0xff (payload ++ packH crc)) c =
        (c', .sectorEnd (buf ++ payload) (buf ++ payload) (successAck b0 b1)) ∧
      Filling (sector + 1) 0 [] c' ∧ c'.sectorSequenceError = false := by
  obtain ⟨c', b0, b1, heq, hc', hord'⟩ := h.holds.tail payload crc hs hord hlen
  obtain rfl : (espBleOtaWriteChr (wire sector 0xff (payload ++ packH crc)) c).1 = c' := by
    rw [heq]
  exact ⟨_, b0, b1, (recvFwWrite_started h.started _).trans heq, hc'.filling h.started, hord'⟩

/-- The component rejects a packet of another sector, and stays at the start of its own. -/
theorem Filling.wrongSector (h : Filling sector seq buf c) {sector' : Nat} (seq' : Nat)
    (payload : List UInt8) (hs : sector' < 65535) (hne : sector' ≠ sector) :
    ∃ frame, recvFwWrite (wire sector' seq' payload) c =
      (c.restartSector false, .reply frame espErrInvalidState) := by
  have hrecv := wire_sector seq' payload (show sector' < 65536 by omega)
  have hff : ¬((wire sector' seq' payload).getD 0 0 = 0xff ∧
      (wire sector' seq' payload).getD 1 0 = 0xff) := by
    rintro ⟨h0, h1⟩
    rw [h0, h1] at hrecv
    simp at hrecv
    omega
  unfold recvFwWrite espBleOtaWriteChr
  rw [if_pos h.started, if_neg (by rw [wire_length]; omega)]
  simp only [hrecv, h.sector, if_pos (And.intro hne hff)]
  exact ⟨_, rfl⟩

/-- The component rejects a packet of its sector that is not the next one and not the tail. -/
theorem Filling.wrongPacket (h : Filling sector seq buf c) {seq' : Nat} (payload : List UInt8)
    (hs : sector < 65536) (hseq : UInt8.ofNat seq' ≠ UInt8.ofNat seq)
    (htail : UInt8.ofNat seq' ≠ 0xff) :
    recvFwWrite (wire sector seq' payload) c =
      (c.restartSector true, .reply none espErrInvalidState) := by
  unfold recvFwWrite espBleOtaWriteChr
  rw [if_pos h.started, if_neg (by rw [wire_length]; omega)]
  simp only [wire_sector _ _ hs, wire_seq, h.sector, h.seq]
  simp [hseq, htail]

theorem Filling.restart (h : Filling sector seq buf c) (e : Bool) :
    Filling sector 0 [] (c.restartSector e) :=
  ⟨h.started, h.sector, rfl, by simp [Component.restartSector, h.buf]⟩

end BleOta.Host
