/-!
# Codes that are read back off the front

A `Codec` writes an element as a word that is not empty, and reads it back whatever follows it. So
the words of a sequence of elements, one after the other, have one reading.

* `Codec.readAll`: all the elements of a sequence of words.
* `Codec.readAll_flatMap`: it gives back what was written.
-/

namespace Lib

/-- A code whose words are read back off the front of any sequence. -/
structure Codec (α β : Type) where
  encode : α → List β
  decode : List β → Option (α × List β)
  decode_encode : ∀ a rest, decode (encode a ++ rest) = some (a, rest)
  encode_ne_nil : ∀ a, encode a ≠ []

namespace Codec

variable {α β : Type} (C : Codec α β)

/-- The elements of a sequence of at most `fuel` words. -/
def readMost : Nat → List β → Option (List α)
  | _, [] => some []
  | 0, _ :: _ => none
  | fuel + 1, b :: bs => match C.decode (b :: bs) with
    | none => none
    | some (a, rest) => (readMost fuel rest).map (a :: ·)

/-- The elements of a sequence of words. -/
def readAll (bs : List β) : Option (List α) := C.readMost bs.length bs

theorem readMost_flatMap {as : List α} {fuel : Nat} (h : (as.flatMap C.encode).length ≤ fuel) :
    C.readMost fuel (as.flatMap C.encode) = some as := by
  induction as generalizing fuel with
  | nil => cases fuel <;> rfl
  | cons a as ih =>
    rw [List.flatMap_cons] at h ⊢
    obtain ⟨b, bs, hb⟩ := List.exists_cons_of_ne_nil (C.encode_ne_nil a)
    have hd := C.decode_encode a (as.flatMap C.encode)
    rw [hb, List.cons_append] at h hd ⊢
    cases fuel with
    | zero => cases h
    | succ fuel =>
      rw [readMost, hd]
      dsimp only
      rw [ih (by rw [List.length_cons, List.length_append] at h; omega)]
      rfl

/-- **A sequence of words has one reading.** -/
theorem readAll_flatMap (as : List α) : C.readAll (as.flatMap C.encode) = some as :=
  C.readMost_flatMap (Nat.le_refl _)

end Codec

end Lib
