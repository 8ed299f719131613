import BleOta.Host.Detection

/-!
# Corrupted answers that the check always refuses

Up to three flipped bits are seen wherever they are (`BleOta.Host.Detection`). More of them are
seen when they are close together or odd in number.

* `crcRegister_pair`: two bytes that follow each other are never confused.
* `verifyAckCrc_separates`: two valid answers differ in more than two neighbouring bytes, unless
  these are the last byte of the data and the first one of the checksum; and an odd number of
  flipped bits is never accepted.
-/

namespace BleOta

/-- Rounds only shift while the top bit is clear. -/
theorem crc16Round_iterate_small {x : BitVec 16} {k : Nat} (hk : k ≤ 16)
    (hx : x.toNat < 2 ^ (16 - k)) : crc16Round^[k] x = x <<< k := by
  induction k with
  | zero => simp
  | succ k ih =>
    have hpow : 2 ^ (16 - k) = 2 * 2 ^ (16 - (k + 1)) := by
      rw [← Nat.pow_succ']
      congr 1
      omega
    have hx' : x.toNat * 2 ^ k < 2 ^ 15 := by
      have hle : x.toNat * 2 ^ k < 2 ^ (16 - (k + 1)) * 2 ^ k :=
        Nat.mul_lt_mul_of_pos_right hx (Nat.two_pow_pos k)
      rwa [← Nat.pow_add, show 16 - (k + 1) + k = 15 by omega] at hle
    have hmsb : (x <<< k).msb = false := by
      rw [BitVec.msb_eq_decide, BitVec.toNat_shiftLeft, Nat.shiftLeft_eq]
      have hlt : x.toNat * 2 ^ k % 2 ^ 16 < 2 ^ 15 := Nat.lt_of_le_of_lt (Nat.mod_le _ _) hx'
      simpa using hlt
    rw [Function.iterate_succ_apply', ih (by omega) (by omega), crc16Round, hmsb,
      if_neg Bool.false_ne_true, ← BitVec.shiftLeft_add]

/-- A byte in the lower half of the register is one in the upper half after its eight rounds. -/
theorem crcRegister_step_low (b : UInt8) :
    crcRegister.step (b.toBitVec.setWidth 16) = crcRegister.mix b := by
  refine crc16Round_iterate_small (k := 8) (by decide) ?_
  have hb := b.toNat_lt
  simpa using hb

theorem halves_inj {a b c d : BitVec 8}
    (h : a.setWidth 16 <<< 8 ^^^ b.setWidth 16 = c.setWidth 16 <<< 8 ^^^ d.setWidth 16) :
    a = c ∧ b = d := by
  constructor
  · ext i hi
    have h' := congrArg (BitVec.getLsbD · (i + 8)) h
    simpa [show i + 8 < 16 by omega, show ¬i + 8 < 8 by omega, show i < 16 by omega,
      ← BitVec.getLsbD_eq_getElem] using h'
  · ext i hi
    have h' := congrArg (BitVec.getLsbD · i) h
    simpa [hi, show i < 16 by omega, ← BitVec.getLsbD_eq_getElem] using h'

theorem crcRegister_step_injective : Function.Injective crcRegister.step :=
  crc16Round_injective.iterate 8

/-- Two bytes in a row fill the register, so none of their errors cancel out. -/
theorem crcRegister_pair {r : BitVec 16} {a b c d : UInt8}
    (h : crcRegister.run r [a, b] = crcRegister.run r [c, d]) : a = c ∧ b = d := by
  rw [Lib.Register.run_pair crcRegister_step_low, Lib.Register.run_pair crcRegister_step_low] at h
  have hxor := crcRegister_step_injective (crcRegister_step_injective h)
  rw [BitVec.xor_right_inj] at hxor
  obtain ⟨hac, hbd⟩ := halves_inj hxor
  exact ⟨UInt8.toBitVec_inj.mp hac, UInt8.toBitVec_inj.mp hbd⟩

namespace Host

/-! ## Two valid frames -/

/-- The frames are the same but for the bytes `k` and `k + 1`. -/
def SameBut (k : Nat) (frame frame' : List UInt8) : Prop :=
  ∀ i, i ≠ k → i ≠ k + 1 → frame[i]? = frame'[i]?

variable {frame frame' : List UInt8} {k : Nat}

theorem storedCrc_inj (h : storedCrc frame = storedCrc frame') :
    frame.getD 18 0 = frame'.getD 18 0 ∧ frame.getD 19 0 = frame'.getD 19 0 := by
  have hnat : unpackH frame 18 = unpackH frame' 18 := by
    rw [← storedCrc_toNat, ← storedCrc_toNat, h]
  simp only [unpackH, Nat.reduceAdd] at hnat
  have h1 := (frame.getD 18 0).toNat_lt
  have h2 := (frame'.getD 18 0).toNat_lt
  constructor <;> apply UInt8.toNat_inj.mp <;> omega

theorem SameBut.take_eq {n : Nat} (hsame : SameBut k frame frame') (hn : n ≤ k) :
    frame.take n = frame'.take n := by
  refine List.ext_getElem? fun i => ?_
  rw [List.getElem?_take, List.getElem?_take]
  split
  · exact hsame i (by omega) (by omega)
  · rfl

/-- A list with two of its elements shown. -/
theorem eq_take_pair_drop {l : List UInt8} (hk : k + 1 < l.length) :
    l = l.take k ++ ([l[k], l[k + 1]] ++ l.drop (k + 2)) := by
  rw [List.cons_append, List.cons_append, List.nil_append, ← List.drop_eq_getElem_cons hk,
    ← List.drop_eq_getElem_cons (Nat.lt_of_succ_lt hk), List.take_append_drop]

/-- Two bytes of the data. -/
theorem eq_of_sameBut_data {l l' : List UInt8} (hlen : l.length = l'.length)
    (hk : k + 1 < l.length) (hsame : SameBut k l l')
    (hcrc : BleOta.crc16Ccitt l = BleOta.crc16Ccitt l') : l = l' := by
  have htake : l.take k = l'.take k := hsame.take_eq (Nat.le_refl k)
  have hdrop : l.drop (k + 2) = l'.drop (k + 2) := by
    refine List.ext_getElem? fun i => ?_
    rw [List.getElem?_drop, List.getElem?_drop]
    exact hsame _ (by omega) (by omega)
  have hl := eq_take_pair_drop hk
  have hl' := eq_take_pair_drop (hlen ▸ hk : k + 1 < l'.length)
  rw [crc16Ccitt_eq_run, crc16Ccitt_eq_run, hl, hl', htake, hdrop, Lib.Register.run_append,
    Lib.Register.run_append, Lib.Register.run_append, Lib.Register.run_append] at hcrc
  obtain ⟨h1, h2⟩ := crcRegister_pair (Lib.Register.run_injective crcRegister_step_injective _ hcrc)
  rw [hl, hl', htake, hdrop, h1, h2]

theorem eq_of_sameBut (hv : verifyAckCrc frame = true) (hv' : verifyAckCrc frame' = true)
    (hk : k ≠ 17) (hsame : SameBut k frame frame') : frame = frame' := by
  obtain ⟨hlen, hzero⟩ := verifyAckCrc_iff.mp hv
  obtain ⟨hlen', hzero'⟩ := verifyAckCrc_iff.mp hv'
  rw [syndrome, BitVec.xor_eq_zero_iff] at hzero hzero'
  rw [ackFrameLen] at hlen hlen'
  rcases Nat.lt_or_gt_of_ne hk with hk | hk
  · -- the checksums are the same, so the data is
    have hstored : storedCrc frame = storedCrc frame' := by
      simp only [storedCrc, List.getD_eq_getElem?_getD, hsame 18 (by omega) (by omega),
        hsame 19 (by omega) (by omega)]
    have hdata : frame.take 18 = frame'.take 18 := by
      refine eq_of_sameBut_data (k := k) (by simp [hlen, hlen']) (by simp [hlen]; omega)
        (fun i h1 h2 => ?_) (by rw [hzero, hzero', hstored])
      rw [List.getElem?_take, List.getElem?_take, hsame i h1 h2]
    refine List.ext_getElem? fun i => ?_
    rcases Nat.lt_or_ge i 18 with hi | hi
    · rw [← List.getElem?_take_of_lt hi, hdata, List.getElem?_take_of_lt hi]
    · exact hsame i (by omega) (by omega)
  · -- the data is the same, so the checksums are
    have hdata : frame.take 18 = frame'.take 18 := hsame.take_eq (by omega)
    obtain ⟨h18, h19⟩ := storedCrc_inj (hzero.symm.trans (hdata ▸ hzero'))
    refine List.ext_getElem? fun i => ?_
    rcases Nat.lt_or_ge i 18 with hi | hi
    · exact hsame i (by omega) (by omega)
    · rcases Nat.lt_or_ge i 20 with hi' | hi'
      · have hget : frame.getD i 0 = frame'.getD i 0 := by
          obtain rfl | rfl : i = 18 ∨ i = 19 := by omega
          · exact h18
          · exact h19
        rw [List.getElem?_eq_getElem (by omega), List.getElem?_eq_getElem (by omega)]
        simpa [hlen, hlen', hi'] using hget
      · rw [List.getElem?_eq_none (by omega), List.getElem?_eq_none (by omega)]

/-- **The check keeps valid frames apart**: two of them do not differ in two neighbouring bytes
only, but for the last byte of the data with the first one of the checksum; and a valid frame is
not valid any more after an odd number of its bits flip. -/
theorem verifyAckCrc_separates :
    (∀ frame frame' k, verifyAckCrc frame = true → verifyAckCrc frame' = true → k ≠ 17 →
      SameBut k frame frame' → frame = frame') ∧
    ∀ frame bits, verifyAckCrc frame = true → (∀ i ∈ bits, i < 8 * ackFrameLen) →
      bits.length % 2 = 1 → verifyAckCrc (flipBits frame bits) = false := by
  refine ⟨fun _ _ _ hv hv' hk hsame => eq_of_sameBut hv hv' hk hsame, ?_⟩
  intro frame bits hv hbits hodd
  obtain ⟨hlen, hzero⟩ := verifyAckCrc_iff.mp hv
  rw [Bool.eq_false_iff]
  intro hv'
  have hzero' := (verifyAckCrc_iff.mp hv').2
  rw [syndrome_flipBits hlen hbits, hzero, BitVec.zero_xor] at hzero'
  exact Lib.sumOver_ne_zero_of_odd (n := 16) (fun _ _ => crcPower_odd _) hodd hzero'

-- a change of the bytes 17 and 18 may pass, since the low byte of the checksum comes first
example : verifyAckCrc (List.replicate 17 0 ++ [0x89, 0xA1, 0]) = true := by decide +kernel

end Host

end BleOta
