import Mathlib.Data.List.Infix

/-!
# What a trace of events leaves behind

A log of events does not say what a medium holds after them: a failing write may have taken place
or not. `Replay Step es m m'`: from the medium `m` the events `es` may leave `m'`, if `Step` says
what one event may do.

* `Safe Step P es m`: however far the events have come (a power loss), `P` holds of what is left.
  `Safe.append`: an extension of the trace is safe if it is safe from whatever the trace leaves.
* `Safe.of_keeps`: events that each keep an invariant are safe.
-/

namespace Lib

variable {ε μ : Type} {Step : ε → μ → μ → Prop}

/-- The events may take the first medium to the second. -/
inductive Replay (Step : ε → μ → μ → Prop) : List ε → μ → μ → Prop
  | nil (m : μ) : Replay Step [] m m
  | cons {e es m m' m''} : Step e m m' → Replay Step es m' m'' → Replay Step (e :: es) m m''

/-- After every prefix of the events `P` holds, whatever the events of the prefix did. -/
def Safe (Step : ε → μ → μ → Prop) (P : μ → Prop) (es : List ε) (m : μ) : Prop :=
  ∀ pre m', pre <+: es → Replay Step pre m m' → P m'

theorem replay_append {es es' : List ε} {m m'' : μ} :
    Replay Step (es ++ es') m m'' ↔ ∃ m', Replay Step es m m' ∧ Replay Step es' m' m'' := by
  induction es generalizing m with
  | nil =>
    constructor
    · intro h; exact ⟨m, .nil m, h⟩
    · rintro ⟨m', h, h'⟩; cases h; exact h'
  | cons e es ih =>
    constructor
    · intro h
      cases h with
      | cons hs hr =>
        obtain ⟨m', h1, h2⟩ := ih.mp hr
        exact ⟨m', .cons hs h1, h2⟩
    · rintro ⟨m', h, h'⟩
      cases h with
      | cons hs hr => exact .cons hs (ih.mpr ⟨m', hr, h'⟩)

/-- What every event of the trace keeps, the trace keeps. -/
theorem Replay.keeps {I : μ → Prop} {es : List ε} {m m' : μ} (hr : Replay Step es m m')
    (hk : ∀ e ∈ es, ∀ m m', I m → Step e m m' → I m') (hm : I m) : I m' := by
  induction hr with
  | nil => exact hm
  | cons hs _ ih =>
    obtain ⟨hk0, hks⟩ := List.forall_mem_cons.mp hk
    exact ih hks (hk0 _ _ hm hs)

variable {P : μ → Prop} {es es' : List ε} {m : μ}

/-- The whole trace is a prefix of itself. -/
theorem Safe.all (h : Safe Step P es m) {m' : μ} (hr : Replay Step es m m') : P m' :=
  h es m' (List.prefix_refl es) hr

/-- Nothing has happened. -/
theorem Safe.start (h : Safe Step P es m) : P m := h [] m List.nil_prefix (.nil m)

theorem safe_nil (h : P m) : Safe Step P [] m := by
  intro pre m' hp hr
  rw [List.prefix_nil.mp hp] at hr
  cases hr
  exact h

theorem safe_cons {e : ε} (h : P m) (hs : ∀ m', Step e m m' → Safe Step P es m') :
    Safe Step P (e :: es) m := by
  intro pre m' hp hr
  rcases List.prefix_cons_iff.mp hp with rfl | ⟨t, rfl, ht⟩
  · cases hr; exact h
  · cases hr with
    | cons hst hr => exact hs _ hst t m' ht hr

theorem Safe.tail {e : ε} {m' : μ} (h : Safe Step P (e :: es) m) (hs : Step e m m') :
    Safe Step P es m' := by
  intro pre m'' hp hr
  exact h (e :: pre) m'' (List.cons_prefix_cons.mpr ⟨rfl, hp⟩) (.cons hs hr)

theorem Safe.append (h : Safe Step P es m) (h' : ∀ m', Replay Step es m m' → Safe Step P es' m') :
    Safe Step P (es ++ es') m := by
  induction es generalizing m with
  | nil => exact h' m (.nil m)
  | cons e es ih =>
    refine safe_cons h.start fun m' hs => ih (h.tail hs) ?_
    intro m'' hr
    exact h' m'' (.cons hs hr)

/-- Events that keep an invariant are safe for what it says. -/
theorem Safe.of_keeps {I : μ → Prop} (hk : ∀ e ∈ es, ∀ m m', I m → Step e m m' → I m')
    (hI : ∀ m, I m → P m) (hm : I m) : Safe Step P es m := by
  intro pre m' hp hr
  exact hI m' (hr.keeps (fun e he => hk e (hp.subset he)) hm)

end Lib
