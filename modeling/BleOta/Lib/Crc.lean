import Mathlib.Data.List.Basic
import Mathlib.Logic.Function.Iterate

/-!
# Linear registers and the errors that they detect

A checksum register mixes a symbol into its state with exclusive or and then steps; when the step
is linear in exclusive or, an error of the data moves the checksum by an amount that does not
depend on the data.

* `Register.run_xor`, `Register.run_modify`: what an error of the start value and an error of one
  symbol do to the checksum.
* `Register.run_injective`, `Register.run_pair`: an injective step forgets no error, and two symbols
  may be mixed in at once.
* `parityBelow`: the parity of the low bits of a vector; it is linear too.
* `iterate_injOn`: an injective step has as many different states as it takes to come back.
* `sumOver`: the exclusive or of the effects of several errors. An odd number of them is seen when
  each effect has odd parity (`sumOver_ne_zero_of_odd`), and two are seen when their effects
  differ (`sumOver_ne_zero`).
-/

namespace Lib

theorem iterate_xor {w : Nat} {f : BitVec w → BitVec w} (hf : ∀ a b, f (a ^^^ b) = f a ^^^ f b)
    (k : Nat) (a b : BitVec w) : f^[k] (a ^^^ b) = f^[k] a ^^^ f^[k] b := by
  induction k generalizing a b with
  | zero => rfl
  | succ k ih => simp only [Function.iterate_succ_apply, hf, ih]

/-- A register of `w` bits: it mixes in a symbol and steps. -/
structure Register (w : Nat) (σ : Type) where
  step : BitVec w → BitVec w
  mix : σ → BitVec w
  step_xor (a b : BitVec w) : step (a ^^^ b) = step a ^^^ step b

namespace Register

variable {w : Nat} {σ : Type} (R : Register w σ)

/-- The state after the symbols `l`. -/
def run (r : BitVec w) (l : List σ) : BitVec w := l.foldl (fun c s => R.step (c ^^^ R.mix s)) r

@[simp] theorem run_nil (r : BitVec w) : R.run r [] = r := rfl

@[simp] theorem run_cons (r : BitVec w) (s : σ) (l : List σ) :
    R.run r (s :: l) = R.run (R.step (r ^^^ R.mix s)) l := rfl

/-- An error of the start value steps on its own, whatever the symbols are. -/
theorem run_xor (r e : BitVec w) (l : List σ) :
    R.run (r ^^^ e) l = R.run r l ^^^ R.step^[l.length] e := by
  induction l generalizing r e with
  | nil => rfl
  | cons s l ih =>
    have hmix : r ^^^ e ^^^ R.mix s = r ^^^ R.mix s ^^^ e := by ac_rfl
    rw [run_cons, hmix, R.step_xor, ih, run_cons, List.length_cons, Function.iterate_succ_apply]

/-- An error `e` of the symbol at `k` steps once for that symbol and each one after it. -/
theorem run_modify {f : σ → σ} {e : BitVec w} (hf : ∀ s, R.mix (f s) = R.mix s ^^^ e)
    (r : BitVec w) {l : List σ} {k : Nat} (hk : k < l.length) :
    R.run r (l.modify k f) = R.run r l ^^^ R.step^[l.length - k] e := by
  induction l generalizing r k with
  | nil => simp at hk
  | cons s l ih =>
    cases k with
    | zero =>
      rw [List.modify_zero_cons, run_cons, run_cons, hf, ← BitVec.xor_assoc, R.step_xor, run_xor,
        List.length_cons, Nat.sub_zero, Function.iterate_succ_apply]
    | succ k =>
      have hk' : k < l.length := by simpa using hk
      rw [List.modify_succ_cons, run_cons, run_cons, ih _ hk', List.length_cons,
        Nat.add_sub_add_right]

theorem run_append (r : BitVec w) (l l' : List σ) :
    R.run r (l ++ l') = R.run (R.run r l) l' := List.foldl_append ..

variable {R}

/-- An injective step keeps different states different, whatever comes after them. -/
theorem run_injective (hstep : Function.Injective R.step) (l : List σ) :
    Function.Injective fun r => R.run r l := by
  induction l with
  | nil => exact Function.injective_id
  | cons s l ih =>
    intro r r' h
    exact (BitVec.xor_left_inj (R.mix s)).mp (hstep (ih h))

/-- A symbol that is a step of `low` may be mixed in as `low` with the symbol before it. -/
theorem run_pair {low : σ → BitVec w} (hlow : ∀ s, R.step (low s) = R.mix s) (r : BitVec w)
    (s t : σ) : R.run r [s, t] = R.step (R.step (r ^^^ (R.mix s ^^^ low t))) := by
  rw [run_cons, run_cons, run_nil, ← hlow t, ← R.step_xor, BitVec.xor_assoc]

end Register

variable {w : Nat} {ι : Type}

/-! ## Parity -/

/-- The parity of the bits of `x` below `n`. -/
def parityBelow (x : BitVec w) : Nat → Bool
  | 0 => false
  | n + 1 => parityBelow x n ^^ x.getLsbD n

theorem parityBelow_xor (x y : BitVec w) (n : Nat) :
    parityBelow (x ^^^ y) n = (parityBelow x n ^^ parityBelow y n) := by
  induction n with
  | zero => rfl
  | succ n ih =>
    simp only [parityBelow, ih, BitVec.getLsbD_xor, Bool.xor_assoc, Bool.xor_left_comm]

theorem parityBelow_zero (n : Nat) : parityBelow 0#w n = false := by
  induction n with
  | zero => rfl
  | succ n ih => simp [parityBelow, ih]

/-- A shift by one moves every bit up and brings in a clear one. -/
theorem parityBelow_shiftLeft_one (x : BitVec w) {n : Nat} (hn : n < w) :
    parityBelow (x <<< 1) (n + 1) = parityBelow x n := by
  induction n with
  | zero => simp [parityBelow]
  | succ n ih =>
    rw [parityBelow, ih (by omega), parityBelow]
    simp [hn, BitVec.getLsbD_eq_getElem, Nat.lt_of_succ_lt hn]

/-! ## The states of a register that runs on -/

/-- An injective step whose run from `a` does not come back to `a` in fewer than `n` steps has
`n` different states. -/
theorem iterate_injOn {α : Type} {f : α → α} (hf : Function.Injective f) {a : α} {n : Nat}
    (hne : ∀ k, 0 < k → k < n → f^[k] a ≠ a) {i j : Nat} (hi : i < n) (hj : j < n)
    (h : f^[i] a = f^[j] a) : i = j := by
  rcases Nat.lt_trichotomy i j with hlt | rfl | hlt
  · have hback : f^[j - i] a = a := Function.iterate_cancel hf h.symm
    exact absurd hback (hne _ (by omega) (by omega))
  · rfl
  · have hback : f^[i - j] a = a := Function.iterate_cancel hf h
    exact absurd hback (hne _ (by omega) (by omega))

/-! ## Several errors -/

/-- The exclusive or of the effects of the errors `l`. -/
def sumOver (effect : ι → BitVec w) (l : List ι) : BitVec w :=
  l.foldl (fun x i => x ^^^ effect i) 0#w

variable {effect : ι → BitVec w}

theorem foldl_xor (x : BitVec w) (l : List ι) :
    l.foldl (fun x i => x ^^^ effect i) x = x ^^^ sumOver effect l := by
  induction l generalizing x with
  | nil => simp [sumOver]
  | cons i l ih =>
    have hsum : sumOver effect (i :: l) = effect i ^^^ sumOver effect l := by
      rw [sumOver, List.foldl_cons, ih, BitVec.zero_xor]
    rw [List.foldl_cons, ih, hsum, BitVec.xor_assoc]

theorem sumOver_cons (i : ι) (l : List ι) :
    sumOver effect (i :: l) = effect i ^^^ sumOver effect l := by
  rw [sumOver, List.foldl_cons, foldl_xor, BitVec.zero_xor]

/-- The parity of the sum of odd effects is the parity of their number. -/
theorem parityBelow_sumOver {n : Nat} {l : List ι}
    (hodd : ∀ i ∈ l, parityBelow (effect i) n = true) :
    parityBelow (sumOver effect l) n = decide (l.length % 2 = 1) := by
  induction l with
  | nil => simpa [sumOver] using parityBelow_zero n
  | cons i l ih =>
    rw [sumOver_cons, parityBelow_xor, hodd i (List.mem_cons_self ..),
      ih fun j hj => hodd j (List.mem_cons_of_mem _ hj), List.length_cons, Bool.true_xor,
      ← decide_not, decide_eq_decide]
    omega

/-- An odd number of odd effects does not cancel out. -/
theorem sumOver_ne_zero_of_odd {n : Nat} {l : List ι}
    (hodd : ∀ i ∈ l, parityBelow (effect i) n = true) (hl : l.length % 2 = 1) :
    sumOver effect l ≠ 0#w := by
  intro h0
  have h := parityBelow_sumOver hodd
  rw [h0, parityBelow_zero, decide_eq_true hl] at h
  cases h

/-- One to three effects that are odd and different do not cancel out. -/
theorem sumOver_ne_zero {n : Nat} {l : List ι}
    (hodd : ∀ i ∈ l, parityBelow (effect i) n = true)
    (hinj : ∀ i ∈ l, ∀ j ∈ l, effect i = effect j → i = j) (hl : l.Nodup) (h0 : l ≠ [])
    (h3 : l.length ≤ 3) : sumOver effect l ≠ 0#w := by
  rcases Nat.mod_two_eq_zero_or_one l.length with heven | hlen
  · have h2 : l.length = 2 := by
      have := List.length_pos_iff.mpr h0
      omega
    obtain ⟨i, j, rfl⟩ := List.length_eq_two.mp h2
    -- the sum of two effects is zero only if they are the same
    rw [sumOver_cons, sumOver_cons, sumOver, List.foldl_nil, BitVec.xor_zero]
    intro h
    have hij : i = j := hinj i (by simp) j (by simp) (BitVec.xor_eq_zero_iff.mp h)
    simp [hij] at hl
  · exact sumOver_ne_zero_of_odd hodd hlen

end Lib
