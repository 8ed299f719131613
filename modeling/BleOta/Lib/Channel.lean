import BleOta.Lib.Lts

/-!
# A channel that may lose

What a first-in first-out buffer between two tasks is for: the elements leave it in the order in
which they came, each once, and each with a fate (delivered, or one of the ways to be lost).

* `Channel.conserved`: in every reachable state the elements that were sent are the ones with a
  fate, then the ones that wait.
-/

namespace Lib

/-- What was sent, what has left with its fate, what waits. -/
structure Channel (α φ : Type) where
  sent : List α
  fates : List (α × φ)
  pending : List α

/-- A step of a channel: elements come in, or the first `n` get the fate `f`. -/
inductive Channel.Move (α φ : Type) where
  | send (xs : List α)
  | take (n : Nat) (f : φ)

namespace Channel

variable {α φ : Type}

/-- The channel after a step. -/
def move : Move α φ → Channel α φ → Channel α φ
  | .send xs, c => { c with sent := c.sent ++ xs, pending := c.pending ++ xs }
  | .take n f, c =>
    { c with fates := c.fates ++ (c.pending.take n).map (·, f), pending := c.pending.drop n }

/-- The channels that begin empty. -/
def system (α φ : Type) : Lts (Channel α φ) (Move α φ) :=
  ⟨(· = ⟨[], [], []⟩), fun m c => some (move m c)⟩

/-- The elements with the fate `f`. -/
def ofFate [DecidableEq φ] (f : φ) (fates : List (α × φ)) : List α :=
  (fates.filter (·.2 = f)).map (·.1)

@[simp] theorem ofFate_append [DecidableEq φ] (f : φ) (fs gs : List (α × φ)) :
    ofFate f (fs ++ gs) = ofFate f fs ++ ofFate f gs := by
  simp [ofFate]

@[simp] theorem ofFate_map [DecidableEq φ] (f g : φ) (xs : List α) :
    ofFate f (xs.map (·, g)) = if g = f then xs else [] := by
  by_cases h : g = f <;> simp [ofFate, List.filter_map, Function.comp_def, h]

variable {c : Channel α φ}

/-- **Nothing is lost without a fate**, nothing comes twice, and the order is kept. -/
theorem conserved (h : (system α φ).Reach c) : c.sent = c.fates.map (·.1) ++ c.pending := by
  refine h.invariant (I := fun c => c.sent = c.fates.map (·.1) ++ c.pending)
    (fun c hc => by cases hc; rfl) (fun m c c' _ hi hst => ?_)
  cases Option.some.inj hst
  cases m with
  | send xs => simp [move, hi]
  | take n f => simp [move, hi, Function.comp_def]

end Channel

end Lib
