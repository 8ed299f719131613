import BleOta.Host.Packets

/-!
# One sector in packets

* `FitsAtt`: every packet of a sector fits one ATT write. `Planned.fits_iff`: it depends on the last
  packet only; `fitsAtt_iff`: for which lengths and MTUs the packets fit.
* `feed`: the component gets a list of packets. `Planned.feed`: it takes the packets that are left
  of a sector; `sector_decodes`: the packets of a sector decode to the sector.
-/

namespace BleOta.Host

variable {sector seq chunk offset mtuSize : Nat} {data fw : List UInt8}
  {packets : List (List UInt8)} {c : Component}

/-! ## The length of the packets -/

/-- `plan_sector_packets` returns packets, each of at most the MTU less the ATT header. -/
def FitsAtt (mtuSize sector : Nat) (fw : List UInt8) : Prop :=
  ∃ packets, planSectorPackets mtuSize sector fw = .ok packets ∧
    ∀ pkt ∈ packets, pkt.length ≤ mtuSize - 3

/-- A packet before the tail is full, so all fit if the tail does: its checksum needs two more
bytes. -/
theorem Planned.fits_iff (h : Planned chunk sector data seq offset packets) :
    (∀ pkt ∈ packets, pkt.length ≤ chunk + 3) ↔
      (data.length - offset - 1) % chunk + 3 ≤ chunk := by
  induction h with
  | @tail seq offset hlt hlast =>
    have hmod : (data.length - offset - 1) % chunk = data.length - offset - 1 :=
      Nat.mod_eq_of_lt (by omega)
    rw [hmod]
    simp only [List.mem_singleton, forall_eq, wire_length, List.length_append, List.length_drop]
    simp only [packH, List.length_cons, List.length_nil]
    omega
  | @more seq offset packets hlt _ ih =>
    have hmod : (data.length - (offset + chunk) - 1) % chunk =
        (data.length - offset - 1) % chunk := by
      rw [← Nat.add_mod_right]
      congr 1
      omega
    rw [hmod] at ih
    rw [← ih]
    simp only [List.mem_cons, forall_eq_or_imp, wire_length, List.length_take, List.length_drop]
    exact and_iff_right (by omega)

/-- The last piece of `n` bytes in pieces of `chunk`. -/
theorem lastPiece_iff {n : Nat} (hn : 0 < n) (hchunk : 3 ≤ chunk) :
    (n - 1) % chunk + 3 ≤ chunk ↔ n % chunk ≠ 0 ∧ n % chunk ≠ chunk - 1 := by
  obtain ⟨m, rfl⟩ : ∃ m, n = m + 1 := ⟨n - 1, by omega⟩
  have hlt : m % chunk < chunk := Nat.mod_lt _ (by omega)
  rw [Nat.add_sub_cancel, Nat.add_mod m 1, Nat.mod_eq_of_lt (show 1 < chunk by omega)]
  generalize m % chunk = r at hlt
  by_cases hr : r + 1 = chunk
  · rw [hr, Nat.mod_self]
    omega
  · rw [Nat.mod_eq_of_lt (by omega)]
    omega

/-- A sector without bytes is one packet with the checksum. -/
theorem planSectorPackets_empty (hmtu : 23 ≤ mtuSize) (h : sectorData fw sector = []) :
    planSectorPackets mtuSize sector fw =
      .ok [wire sector 0xff (packH (crc16Ccitt []))] := by
  unfold planSectorPackets
  rw [if_neg (by simp only [packetOverhead, tailCrcLen]; omega)]
  simp only [h, List.length_nil, planLoop, bind, Except.bind, if_true,
    packet_eq (show 0xff < 256 by decide)]
  rfl

theorem sectorData_length :
    (sectorData fw sector).length = min sectorSize (fw.length - sector * sectorSize) := by
  simp [sectorData]

/-- **When the packets of a sector fit**: the sector is empty, or its length in pieces of
`mtu_size - 6` leaves a last piece that is not full and not one byte short of it. -/
theorem fitsAtt_iff (hmtu : 23 ≤ mtuSize) :
    FitsAtt mtuSize sector fw ↔
      min sectorSize (fw.length - sector * sectorSize) = 0 ∨
      min sectorSize (fw.length - sector * sectorSize) % (mtuSize - 6) ≠ 0 ∧
        min sectorSize (fw.length - sector * sectorSize) % (mtuSize - 6) ≠ mtuSize - 7 := by
  rw [← sectorData_length]
  by_cases hempty : sectorData fw sector = []
  · refine iff_of_true ⟨_, planSectorPackets_empty hmtu hempty, ?_⟩ (.inl (by simp [hempty]))
    simp only [List.mem_singleton, forall_eq, wire_length, packH, List.length_cons,
      List.length_nil]
    omega
  · have hpos : 0 < (sectorData fw sector).length := List.length_pos_iff.mpr hempty
    have hs : sector < totalSectors fw := by
      rw [sectorData_length] at hpos
      simp only [totalSectors, sectorSize] at hpos ⊢
      omega
    obtain ⟨packets, hp, hpl⟩ := planSectorPackets_planned hmtu hs
    have hfits : FitsAtt mtuSize sector fw ↔ ∀ pkt ∈ packets, pkt.length ≤ mtuSize - 6 + 3 := by
      rw [show mtuSize - 6 + 3 = mtuSize - 3 by omega]
      constructor
      · rintro ⟨packets', hp', hfit⟩
        rw [hp] at hp'
        cases hp'
        exact hfit
      · exact fun hfit => ⟨packets, hp, hfit⟩
    rw [hfits, hpl.fits_iff, Nat.sub_zero, lastPiece_iff hpos (by omega),
      show mtuSize - 6 - 1 = mtuSize - 7 by omega]
    exact (or_iff_right (Nat.pos_iff_ne_zero.mp hpos)).symm

theorem fitsAtt_iff_mtu517 : FitsAtt 517 0 (List.replicate 4096 0) :=
  (fitsAtt_iff (by decide)).mpr (.inr (by rw [List.length_replicate]; decide))

/-- With the smallest MTU, a last piece of 17 bytes makes a tail packet of 22 bytes. -/
theorem not_fitsAtt : ¬∀ (fw : List UInt8) (sector mtuSize : Nat), 23 ≤ mtuSize →
    FitsAtt mtuSize sector fw := by
  intro h
  obtain ⟨packets, hp, hfit⟩ := h (List.replicate 17 0) 0 23 (Nat.le_refl _)
  have hplan : planSectorPackets 23 0 (List.replicate 17 0) =
      .ok [wire 0 0xff (List.replicate 17 0 ++ packH 0)] := by
    decide +kernel
  rw [hplan] at hp
  cases hp
  exact absurd (hfit _ (List.mem_singleton_self _)) (by decide)

/-! ## The packets at the component -/

/-- `esp_ble_ota_write_chr` for each of the packets: the component after them, and what follows each
of them. -/
def feed : List (List UInt8) → Component → Component × List PacketOut
  | [], c => (c, [])
  | pkt :: packets, c =>
    let out := espBleOtaWriteChr pkt c
    let rest := feed packets out.1
    (rest.1, out.2 :: rest.2)

/-- The packets that are left of a sector are taken; the last of them gives the sector to the
callback. -/
theorem Planned.feed (h : Planned chunk sector data seq offset packets)
    (hoff : offset = seq * chunk) (hchunk : 17 ≤ chunk) (hlen : data.length ≤ 4096)
    (hs : sector < 65536) (hc : Holds sector seq (data.take offset) c)
    (hord : c.sectorSequenceError = false) :
    ∃ init tail b0 b1, packets = init ++ [tail] ∧ (∀ pkt ∈ init, pkt.getD 2 0 ≠ 0xff) ∧
      (feed packets c).2 = List.replicate init.length (.reply none espOk) ++
        [.sectorEnd data data (successAck b0 b1)] ∧
      Holds (sector + 1) 0 [] (feed packets c).1 ∧
      (feed packets c).1.sectorSequenceError = false := by
  induction h generalizing c with
  | @tail seq offset hlt hlast =>
    have htake : (data.take offset).length = offset := by
      rw [List.length_take]
      omega
    obtain ⟨c', b0, b1, heq, hc', hord'⟩ := hc.tail (data.drop offset) (crc16Ccitt data) hs hord
      (by
        rw [htake, List.length_drop]
        simp only [otaBlockSize]
        omega)
    rw [List.take_append_drop] at heq
    refine ⟨[], _, b0, b1, rfl, nofun, ?_, ?_, ?_⟩
    · simp only [Host.feed, heq]
      rfl
    · simpa only [Host.feed, heq] using hc'
    · simpa only [Host.feed, heq] using hord'
  | @more seq offset packets hlt hpl ih =>
    have htake : (data.take offset).length = offset := by
      rw [List.length_take]
      omega
    have hseq : seq < 241 := seq_lt hchunk (by omega)
    obtain ⟨c', heq, hc', hord'⟩ := hc.more ((data.drop offset).take chunk) hs (by omega) (by
      rw [htake, List.length_take]
      simp only [otaBlockSize]
      omega)
    rw [← List.take_add] at hc'
    obtain ⟨init, tail, b0, b1, rfl, hne, hout, hend, hord''⟩ :=
      ih (by rw [hoff, Nat.add_mul, Nat.one_mul]) hc' hord'
    refine ⟨wire sector seq ((data.drop offset).take chunk) :: init, tail, b0, b1, rfl, ?_, ?_, ?_,
      ?_⟩
    · intro pkt hpkt
      rcases List.mem_cons.mp hpkt with rfl | hpkt
      · rw [wire_seq]
        exact ofNat_ne_ff (by omega)
      · exact hne pkt hpkt
    · simp only [Host.feed, heq, hout, List.length_cons, List.replicate_succ, List.cons_append]
    · simpa only [Host.feed, heq] using hend
    · simpa only [Host.feed, heq] using hord''

/-- **The packets of a sector decode to the sector**: the planning raises nothing, the component
takes every packet, and only the tail packet ends the sector: the callback gets its bytes once. No
other packet has the number of a tail. -/
theorem sector_decodes (hmtu : 23 ≤ mtuSize) (hs : sector < 65535)
    (hlt : sectorSize * sector < fw.length) (hsector : c.curSector = sector)
    (hpacket : c.curPacket = 0) (hbuf : c.fwBuf = some [])
    (hord : c.sectorSequenceError = false) :
    ∃ init tail frame, planSectorPackets mtuSize sector fw = .ok (init ++ [tail]) ∧
      (∀ pkt ∈ init, pkt.getD 2 0 ≠ 0xff) ∧
      (feed (init ++ [tail]) c).2 = List.replicate init.length (.reply none espOk) ++
        [.sectorEnd (sectorData fw sector)
          ((fw.drop (sectorSize * sector)).take sectorSize) frame] ∧
      (feed (init ++ [tail]) c).1.curSector = sector + 1 ∧
      (feed (init ++ [tail]) c).1.curPacket = 0 ∧
      (feed (init ++ [tail]) c).1.fwBuf = some [] := by
  have htotal : sector < totalSectors fw := by
    simp only [totalSectors, sectorSize] at hlt ⊢
    omega
  obtain ⟨packets, hp, hpl⟩ := planSectorPackets_planned hmtu htotal
  have hc : Holds sector 0 ((sectorData fw sector).take 0) c := ⟨hsector, hpacket, hbuf⟩
  obtain ⟨init, tail, b0, b1, rfl, hne, hout, hend, -⟩ := hpl.feed (Nat.zero_mul _).symm (by omega)
    sectorData_length_le (by omega) hc hord
  rw [Nat.mul_comm]
  exact ⟨init, tail, _, hp, hne, hout, hend.sector, hend.seq, hend.buf⟩

/-- The component before the last sector of 4136 bytes. -/
def beforeLast : Component := { Component.zero with curSector := 1, fwBuf := some [] }

theorem sector_decodes_last : ∃ init tail frame,
    planSectorPackets 23 1 (List.replicate 4136 0) = .ok (init ++ [tail]) ∧
      (feed (init ++ [tail]) beforeLast).2 = List.replicate init.length (.reply none espOk) ++
        [.sectorEnd (List.replicate 40 0) (List.replicate 40 0) frame] := by
  have hlt : sectorSize * 1 < (List.replicate 4136 (0 : UInt8)).length := by
    rw [List.length_replicate]
    decide
  have hsector : beforeLast.curSector = 1 := rfl
  obtain ⟨init, tail, frame, hp, -, hout, -⟩ :=
    sector_decodes (Nat.le_refl 23) (by decide) hlt hsector rfl rfl rfl
  refine ⟨init, tail, frame, hp, ?_⟩
  rw [hout]
  simp [-List.reduceReplicate, sectorData, sectorSize]

end BleOta.Host
