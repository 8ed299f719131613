import BleOta.Host.Frames
import BleOta.Lib.Crc

/-!
# The errors that the check of an answer detects

* `crc16Round_xor`, `crc16Round_injective`, `parity_crc16Round`: a round of the checksum is linear,
  loses nothing and keeps the parity of the register, since the polynomial has an odd number of
  terms below `x^16`.
* `syndrome`: what the check of a frame computes; the frame is valid if it is zero.
* `syndrome_flipBit`: a flipped bit moves the syndrome by a power of `x` that depends on the place
  of the bit only.
* `syndrome_flipBits`: so several flipped bits move it by the sum of their powers.
-/

namespace BleOta

/-! ## The checksum as a linear register -/

theorem crc16Round_xor (a b : BitVec 16) :
    crc16Round (a ^^^ b) = crc16Round a ^^^ crc16Round b := by
  simp only [crc16Round, BitVec.msb_xor, BitVec.shiftLeft_xor_distrib]
  cases a.msb <;> cases b.msb
  · rfl
  · simp [BitVec.xor_assoc]
  · simp only [Bool.xor_false, ↓reduceIte, Bool.false_eq_true]
    ac_rfl
  · simp only [Bool.xor_true, Bool.not_true, Bool.false_eq_true, ↓reduceIte]
    rw [BitVec.xor_assoc, BitVec.xor_comm (b <<< 1), ← BitVec.xor_assoc (0x1021#16),
      BitVec.xor_self, BitVec.zero_xor]

theorem crc16Round_eq_zero {x : BitVec 16} (h : crc16Round x = 0#16) : x = 0#16 := by
  unfold crc16Round at h
  split at h
  · -- the round leaves the constant term of the polynomial in the lowest bit
    have h0 := congrArg (BitVec.getLsbD · 0) h
    simp at h0
  · rename_i hm
    rw [BitVec.msb_eq_decide] at hm
    have h2 := congrArg BitVec.toNat h
    simp only [BitVec.toNat_shiftLeft, BitVec.toNat_ofNat] at h2
    apply BitVec.eq_of_toNat_eq
    simp only [BitVec.toNat_ofNat]
    simp at hm
    omega

theorem crc16Round_injective : Function.Injective crc16Round := by
  intro a b h
  have hz : crc16Round (a ^^^ b) = 0#16 := by rw [crc16Round_xor, h, BitVec.xor_self]
  exact BitVec.xor_eq_zero_iff.mp (crc16Round_eq_zero hz)

theorem parity_crc16Round (x : BitVec 16) :
    Lib.parityBelow (crc16Round x) 16 = Lib.parityBelow x 16 := by
  have hshift : Lib.parityBelow (x <<< 1) 16 = Lib.parityBelow x 15 :=
    Lib.parityBelow_shiftLeft_one x (by decide)
  have htop : Lib.parityBelow x 16 = (Lib.parityBelow x 15 ^^ x.msb) := rfl
  have hpoly : Lib.parityBelow 0x1021#16 16 = true := by decide
  unfold crc16Round
  split
  · rename_i hm
    rw [Lib.parityBelow_xor, hshift, hpoly, htop, hm]
  · rename_i hm
    rw [hshift, htop, Bool.eq_false_iff.mpr hm, Bool.xor_false]

/-- `x^n` in the register: what `n` rounds make of the lowest bit. -/
def crcPower (n : Nat) : BitVec 16 := crc16Round^[n] 1#16

theorem crcPower_add (m n : Nat) : crcPower (m + n) = crc16Round^[m] (crcPower n) :=
  Function.iterate_add_apply ..

theorem crcPower_odd (n : Nat) : Lib.parityBelow (crcPower n) 16 = true := by
  induction n with
  | zero => decide
  | succ n ih => rw [crcPower, Function.iterate_succ_apply', parity_crc16Round]; exact ih

/-- The powers below 160, one for each bit of a frame, are different. -/
theorem crcPower_inj {m n : Nat} (hm : m < 160) (hn : n < 160) (h : crcPower m = crcPower n) :
    m = n := by
  have hne : ∀ k < 160, 0 < k → crc16Round^[k] 1#16 ≠ 1#16 := by decide +kernel
  exact Lib.iterate_injOn crc16Round_injective (fun k h0 hk => hne k hk h0) hm hn h

/-- The register of `crc16_ccitt`: a byte goes to the upper half, then eight rounds. -/
def crcRegister : Lib.Register 16 UInt8 where
  step := crc16Round^[8]
  mix b := b.toBitVec.setWidth 16 <<< 8
  step_xor := Lib.iterate_xor crc16Round_xor 8

theorem crc16Ccitt_eq_run (buf : List UInt8) : crc16Ccitt buf = crcRegister.run 0#16 buf := rfl

theorem crcRegister_mix_xor (b c : UInt8) :
    crcRegister.mix (b ^^^ c) = crcRegister.mix b ^^^ crcRegister.mix c := by
  simp only [crcRegister, UInt8.toBitVec_xor, BitVec.setWidth_xor, BitVec.shiftLeft_xor_distrib]

theorem crcRegister_step_iterate (k n : Nat) :
    crcRegister.step^[k] (crcPower n) = crcPower (8 * k + n) := by
  rw [crcPower_add, Function.iterate_mul]
  rfl

namespace Host

/-! ## Flipped bits -/

/-- The frame with its bit `i` flipped: bit `i % 8` of the byte `i / 8`. -/
def flipBit (frame : List UInt8) (i : Nat) : List UInt8 :=
  frame.modify (i / 8) (· ^^^ UInt8.ofNat (2 ^ (i % 8)))

/-- The frame with the bits `bits` flipped, one after the other. -/
def flipBits (frame : List UInt8) (bits : List Nat) : List UInt8 := bits.foldl flipBit frame

@[simp] theorem flipBit_length (frame : List UInt8) (i : Nat) :
    (flipBit frame i).length = frame.length := List.length_modify ..

/-- The checksum of a frame as it is stored, the low byte first. -/
def storedCrc (frame : List UInt8) : BitVec 16 :=
  (frame.getD 19 0).toBitVec ++ (frame.getD 18 0).toBitVec

theorem storedCrc_toNat (frame : List UInt8) : (storedCrc frame).toNat = unpackH frame 18 := by
  have hlow := (frame.getD 18 0).toNat_lt
  rw [storedCrc, BitVec.toNat_append, UInt8.toNat_toBitVec, UInt8.toNat_toBitVec,
    ← Nat.shiftLeft_add_eq_or_of_lt hlow, Nat.shiftLeft_eq, Nat.add_comm]
  rfl

/-- The difference of the computed checksum and the stored one. -/
def syndrome (frame : List UInt8) : BitVec 16 :=
  BleOta.crc16Ccitt (frame.take 18) ^^^ storedCrc frame

theorem verifyAckCrc_iff {frame : List UInt8} :
    verifyAckCrc frame = true ↔ frame.length = ackFrameLen ∧ syndrome frame = 0#16 := by
  have heq : crc16Ccitt (frame.take 18) = unpackH frame 18 ↔
      syndrome frame = 0#16 := by
    rw [crc16Ccitt_eq, ← storedCrc_toNat, BitVec.toNat_inj, syndrome, BitVec.xor_eq_zero_iff]
  unfold verifyAckCrc
  by_cases hlen : frame.length = ackFrameLen
  · rw [if_neg (not_not_intro hlen), beq_iff_eq]
    exact heq.trans (and_iff_right hlen).symm
  · simp [hlen]

/-- The power of `x` that a flip of the bit `i` adds to the syndrome: the stored checksum has the
powers below 16, and the data the ones above, the first byte the highest. -/
def bitPower (i : Nat) : Nat :=
  if i / 8 < 18 then 8 * (18 - i / 8) + (8 + i % 8) else 8 * (i / 8 - 18) + i % 8

theorem bitPower_lt {i : Nat} (hi : i < 160) : bitPower i < 160 := by
  unfold bitPower
  split <;> omega

theorem bitPower_inj {i j : Nat} (hi : i < 160) (hj : j < 160) (h : bitPower i = bitPower j) :
    i = j := by
  unfold bitPower at h
  split at h <;> split at h <;> omega

/-- A flipped bit of the data. -/
theorem syndrome_flipBit_data {frame : List UInt8} {i : Nat} (hlen : frame.length = ackFrameLen)
    (hi : i / 8 < 18) : syndrome (flipBit frame i) = syndrome frame ^^^ crcPower (bitPower i) := by
  have hmask : ∀ j < 8, crcRegister.mix (UInt8.ofNat (2 ^ j)) = crcPower (8 + j) := by decide
  have hmix (b : UInt8) : crcRegister.mix (b ^^^ UInt8.ofNat (2 ^ (i % 8))) =
      crcRegister.mix b ^^^ crcPower (8 + i % 8) := by
    rw [crcRegister_mix_xor, hmask _ (Nat.mod_lt i (by decide))]
  have hstored : storedCrc (flipBit frame i) = storedCrc frame := by
    simp [storedCrc, flipBit, List.getElem?_modify_ne, show i / 8 ≠ 18 by omega,
      show i / 8 ≠ 19 by omega]
  have htake : (flipBit frame i).take 18 =
      (frame.take 18).modify (i / 8) (· ^^^ UInt8.ofNat (2 ^ (i % 8))) := List.take_modify ..
  have hlen' : (frame.take 18).length = 18 := List.length_take_of_le (by rw [hlen]; decide)
  rw [syndrome, hstored, syndrome, htake, crc16Ccitt_eq_run,
    crcRegister.run_modify hmix 0#16 (by rwa [hlen']), hlen', crcRegister_step_iterate, bitPower,
    if_pos hi, ← crc16Ccitt_eq_run, BitVec.xor_assoc, BitVec.xor_comm (crcPower _),
    ← BitVec.xor_assoc]

theorem append_xor (a b c d : BitVec 8) :
    ((a ++ b : BitVec 16) ^^^ (c ++ d : BitVec 16)) = (((a ^^^ c) ++ (b ^^^ d) : BitVec 16)) :=
  BitVec.xor_append

theorem storedCrc_flipBit {frame : List UInt8} {i : Nat} (hlen : frame.length = ackFrameLen)
    (hi : 18 ≤ i / 8) (hi' : i < 160) :
    storedCrc (flipBit frame i) = storedCrc frame ^^^ crcPower (bitPower i) := by
  have hlow : ∀ j < 8, crcPower j = 0#8 ++ (UInt8.ofNat (2 ^ j)).toBitVec := by decide
  have hhigh : ∀ j < 8, crcPower (8 + j) = (UInt8.ofNat (2 ^ j)).toBitVec ++ 0#8 := by decide
  have hj : i % 8 < 8 := Nat.mod_lt i (by decide)
  have hbyte : i / 8 = 18 ∨ i / 8 = 19 := by omega
  have h18 : 18 < frame.length := by rw [hlen]; decide
  have h19 : 19 < frame.length := by rw [hlen]; decide
  rcases hbyte with h | h
  · simp [storedCrc, flipBit, bitPower, h, hlow _ hj, h18, append_xor]
  · simp [storedCrc, flipBit, bitPower, h, hhigh _ hj, h19, append_xor]

/-- A flipped bit of the stored checksum. -/
theorem syndrome_flipBit_crc {frame : List UInt8} {i : Nat} (hlen : frame.length = ackFrameLen)
    (hi : 18 ≤ i / 8) (hi' : i < 160) :
    syndrome (flipBit frame i) = syndrome frame ^^^ crcPower (bitPower i) := by
  have htake : (flipBit frame i).take 18 = frame.take 18 := by
    rw [flipBit, List.take_modify, List.modify_eq_self (by simp; omega)]
  have hstored : storedCrc (flipBit frame i) = storedCrc frame ^^^ crcPower (bitPower i) :=
    storedCrc_flipBit hlen hi hi'
  rw [syndrome, htake, hstored, syndrome, BitVec.xor_assoc]

theorem syndrome_flipBit {frame : List UInt8} {i : Nat} (hlen : frame.length = ackFrameLen)
    (hi : i < 160) : syndrome (flipBit frame i) = syndrome frame ^^^ crcPower (bitPower i) := by
  rcases Nat.lt_or_ge (i / 8) 18 with h | h
  · exact syndrome_flipBit_data hlen h
  · exact syndrome_flipBit_crc hlen h hi

/-- Several flipped bits move the syndrome by the sum of their powers. -/
theorem syndrome_flipBits {frame : List UInt8} {bits : List Nat}
    (hlen : frame.length = ackFrameLen) (hbits : ∀ i ∈ bits, i < 160) :
    syndrome (flipBits frame bits) =
      syndrome frame ^^^ Lib.sumOver (fun i => crcPower (bitPower i)) bits := by
  induction bits generalizing frame with
  | nil => exact (BitVec.xor_zero ..).symm
  | cons i bits ih =>
    have hi : i < 160 := hbits i (List.mem_cons_self ..)
    have hlen' : (flipBit frame i).length = ackFrameLen := by rw [flipBit_length, hlen]
    have ih' := ih hlen' fun j hj => hbits j (List.mem_cons_of_mem _ hj)
    rw [flipBits, List.foldl_cons, ← flipBits, ih', syndrome_flipBit hlen hi, Lib.sumOver_cons,
      BitVec.xor_assoc]

/-- A frame that is valid is not valid any more after one, two or three of its bits flip. -/
theorem verifyAckCrc_flipBits {frame : List UInt8} {bits : List Nat}
    (hv : verifyAckCrc frame = true) (hl : bits.Nodup) (h0 : bits ≠ []) (h3 : bits.length ≤ 3)
    (hbits : ∀ i ∈ bits, i < 160) : verifyAckCrc (flipBits frame bits) = false := by
  obtain ⟨hlen, hzero⟩ := verifyAckCrc_iff.mp hv
  have hsum : Lib.sumOver (fun i => crcPower (bitPower i)) bits ≠ 0#16 :=
    Lib.sumOver_ne_zero (n := 16) (fun i _ => crcPower_odd _)
      (fun i hi j hj h => bitPower_inj (hbits i hi) (hbits j hj)
        (crcPower_inj (bitPower_lt (hbits i hi)) (bitPower_lt (hbits j hj)) h)) hl h0 h3
  rw [Bool.eq_false_iff]
  intro hv'
  have hzero' := (verifyAckCrc_iff.mp hv').2
  rw [syndrome_flipBits hlen hbits, hzero, BitVec.zero_xor] at hzero'
  exact hsum hzero'

/-- **The check of an answer accepts the device's frames and detects up to three flipped bits**:
the host and the component compute the same checksum of every byte string, so every answer that
the component builds is valid; and no valid frame stays valid when one, two or three different
bits of its 160 flip, whether they are bits of the data or of the stored checksum. -/
theorem verifyAckCrc_detects :
    (∀ data, crc16Ccitt data = (BleOta.crc16Ccitt data).toNat) ∧
    (∀ b0 b1 b2 b3 b4 b5, verifyAckCrc (cmdAck b0 b1 b2 b3 b4 b5) = true) ∧
    ∀ frame bits, verifyAckCrc frame = true → bits.Nodup → (∀ i ∈ bits, i < 8 * ackFrameLen) →
      1 ≤ bits.length → bits.length ≤ 3 → verifyAckCrc (flipBits frame bits) = false := by
  refine ⟨crc16Ccitt_eq, fun _ _ _ _ _ _ => verifyAckCrc_cmdAck, ?_⟩
  intro frame bits hv hl hbits h1 h3
  exact verifyAckCrc_flipBits hv hl (List.length_pos_iff.mp h1) h3 hbits

-- three is the most: four flips at the terms of the polynomial are not seen
example : verifyAckCrc (flipBits (cmdAck 7 0 0 0 0 0) [136, 156, 149, 144]) = true := by
  decide +kernel

end Host

end BleOta
