import BleOta.Host.Defs
import BleOta.Component.Lemmas
import Mathlib.Data.Nat.Bitwise

/-!
# The frames of the device at the host

* `crc16Ccitt_eq`: the checksum of the host is the checksum of the component.
* `verifyAckCrc_cmdAck`: the host finds every frame of the component valid.
* `unpackH_packH`: a 16-bit number reads back as itself.
-/

namespace BleOta.Host

theorem unpackH_packH (n : Nat) (hn : n < 65536) (pre post : List UInt8) :
    unpackH (pre ++ packH n ++ post) pre.length = n := by
  simp [unpackH, packH, List.getD_eq_getElem?_getD]
  omega

/-! ## The checksum -/

theorem and_msb_ne_zero {n : Nat} (hn : n < 65536) : n &&& 0x8000 ≠ 0 ↔ 0x8000 ≤ n := by
  have h : n &&& 2 ^ 15 = (n.testBit 15).toNat * 2 ^ 15 := Nat.and_two_pow n 15
  have ht : n.testBit 15 = decide (n / 2 ^ 15 % 2 = 1) := Nat.testBit_eq_decide_div_mod_eq
  rw [show (0x8000 : Nat) = 2 ^ 15 from rfl, h, ht]
  by_cases hd : n / 2 ^ 15 % 2 = 1
  · simp
    omega
  · simp
    omega

theorem crc16Round_eq (x : BitVec 16) : crc16Round x.toNat = (BleOta.crc16Round x).toNat := by
  have hx : x.msb = true ↔ x.toNat &&& 0x8000 ≠ 0 := by
    rw [and_msb_ne_zero x.isLt, BitVec.msb_eq_decide]
    simp
  have hm (n : Nat) : n &&& 0xFFFF = n % 2 ^ 16 := Nat.and_two_pow_sub_one_eq_mod n 16
  unfold crc16Round BleOta.crc16Round
  by_cases h : x.msb = true
  · rw [if_pos (hx.mp h), if_pos h, hm, Nat.xor_mod_two_pow]
    rfl
  · rw [if_neg (fun h' => h (hx.mpr h')), if_neg h, hm]
    rfl

theorem crc16Round_iterate (k : Nat) (x : BitVec 16) :
    crc16Round^[k] x.toNat = (BleOta.crc16Round^[k] x).toNat := by
  induction k generalizing x with
  | zero => rfl
  | succ k ih => rw [Function.iterate_succ_apply, Function.iterate_succ_apply, crc16Round_eq, ih]

/-- **The host and the component compute the same checksum.** -/
theorem crc16Ccitt_eq (data : List UInt8) : crc16Ccitt data = (BleOta.crc16Ccitt data).toNat := by
  unfold crc16Ccitt BleOta.crc16Ccitt
  have hbyte (crc : BitVec 16) (b : UInt8) :
      crc.toNat ^^^ (b.toNat <<< 8) = (crc ^^^ (b.toBitVec.setWidth 16 <<< 8)).toNat := by
    have hb : b.toNat < 256 := b.toNat_lt
    have hs : b.toNat <<< 8 = b.toNat * 256 := Nat.shiftLeft_eq ..
    rw [BitVec.toNat_xor, BitVec.toNat_shiftLeft, BitVec.toNat_setWidth]
    congr 1
    simp [hs]
    omega
  rw [show (0 : Nat) = (0#16).toNat from rfl]
  exact List.foldl_hom BitVec.toNat fun crc b => by rw [hbyte, crc16Round_iterate]

variable {b0 b1 b2 b3 b4 b5 : UInt8}

theorem cmdAck_length : (cmdAck b0 b1 b2 b3 b4 b5).length = ackFrameLen := rfl

/-- The host finds every answer of the component valid. -/
theorem verifyAckCrc_cmdAck : verifyAckCrc (cmdAck b0 b1 b2 b3 b4 b5) = true := by
  have hlt := (BleOta.crc16Ccitt ([b0, b1, b2, b3, b4, b5] ++ List.replicate 12 0)).isLt
  have hcrc : unpackH (cmdAck b0 b1 b2 b3 b4 b5) 18 =
      crc16Ccitt ([b0, b1, b2, b3, b4, b5] ++ List.replicate 12 0) := by
    rw [crc16Ccitt_eq]
    exact unpackH_packH _ hlt ([b0, b1, b2, b3, b4, b5] ++ List.replicate 12 0) []
  unfold verifyAckCrc
  rw [if_neg (fun h => h cmdAck_length), hcrc, beq_iff_eq]
  rfl

theorem unpackH_successAck : unpackH (successAck b0 b1) 2 = ackFwStatusSuccess := by
  simp [unpackH, successAck, cmdAck]

end BleOta.Host
