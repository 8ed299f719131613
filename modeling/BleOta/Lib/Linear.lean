import Mathlib.Data.List.Induction

/-!
# Resources that are taken, used and given back

A trace of `Use`s is linear (`Linear o tr o'`) when it starts with `o` out and ends with `o'` out,
takes a resource only while none is out, and uses or gives back only the one that is out. The
facts that a client reads off are stated for a part of the trace (`Linear.split`,
`Linear.out_eq`) and for the numbers of takes and gives (`Linear.balance`: each take of `r` has
its give, but the one that is still out).
-/

namespace Lib

/-- What a program does with resources of type `ρ`. `idle` is a step that needs that no resource
is out. -/
inductive Use (ρ : Type) where
  | idle
  | take (r : ρ)
  | use (r : ρ)
  | give (r : ρ)
  deriving DecidableEq

namespace Use

variable {ρ : Type}

/-- The resources that are out: taken and not given back. -/
def out [DecidableEq ρ] (tr : List (Use ρ)) : List ρ :=
  tr.foldl (fun l u => match u with
    | .take r => l ++ [r]
    | .give r => l.erase r
    | _ => l) []

/-- One use: what is out before it and after it. -/
inductive Ok : Option ρ → Use ρ → Option ρ → Prop
  | idle : Ok none .idle none
  | take (r : ρ) : Ok none (.take r) (some r)
  | use (r : ρ) : Ok (some r) (.use r) (some r)
  | give (r : ρ) : Ok (some r) (.give r) none

/-- A linear trace, from what is out before it to what is out after it. -/
inductive Linear : Option ρ → List (Use ρ) → Option ρ → Prop
  | nil (o : Option ρ) : Linear o [] o
  | snoc {o o' o'' : Option ρ} {tr : List (Use ρ)} {u : Use ρ} :
      Linear o tr o' → Ok o' u o'' → Linear o (tr ++ [u]) o''

variable {o o' : Option ρ} {tr tr' : List (Use ρ)}

theorem Linear.append {o'' : Option ρ} (h : Linear o tr o') (h' : Linear o' tr' o'') :
    Linear o (tr ++ tr') o'' := by
  induction h' with
  | nil => simpa using h
  | snoc _ hu ih => rw [← List.append_assoc]; exact ih.snoc hu

theorem Linear.split (h : Linear o (tr ++ tr') o') :
    ∃ m, Linear o tr m ∧ Linear m tr' o' := by
  induction tr' using List.reverseRecOn generalizing o' with
  | nil => exact ⟨o', by simpa using h, .nil _⟩
  | append_singleton tr' u ih =>
    rw [← List.append_assoc] at h
    generalize he : tr ++ tr' ++ [u] = t at h
    cases h with
    | nil => simp at he
    | snoc hl hu =>
      obtain ⟨rfl, he'⟩ := List.append_inj' he rfl
      cases he'
      obtain ⟨m, h1, h2⟩ := ih hl
      exact ⟨m, h1, h2.snoc hu⟩

theorem Linear.ok_of_singleton {u : Use ρ} (h : Linear o [u] o') : Ok o u o' := by
  rw [← List.nil_append [u]] at h
  generalize he : [] ++ [u] = t at h
  cases h with
  | nil => simp at he
  | snoc hl hu =>
    obtain ⟨rfl, he'⟩ := List.append_inj' he rfl
    cases he'
    generalize ht : ([] : List (Use ρ)) = t at hl
    cases hl with
    | nil => exact hu
    | snoc => simp at ht

/-- The use `u` inside a linear trace: what is out right before it. -/
theorem Linear.at {u : Use ρ} (h : Linear o (tr ++ u :: tr') o') :
    ∃ m m', Linear o tr m ∧ Ok m u m' ∧ Linear m' tr' o' := by
  obtain ⟨m, h1, h2⟩ := h.split
  rw [← List.singleton_append] at h2
  obtain ⟨m', h3, h4⟩ := h2.split
  exact ⟨m, m', h1, h3.ok_of_singleton, h4⟩

variable [DecidableEq ρ]

/-- At most one resource is out, and it is the one that the trace leaves out. -/
theorem Linear.out_eq (h : Linear none tr o') : out tr = o'.toList := by
  induction h with
  | nil => rfl
  | @snoc _ _ tr u _ hu ih =>
    unfold out at ih ⊢
    rw [List.foldl_append, ih]
    cases hu <;> simp

theorem Linear.out_length (h : Linear none tr o') : (out tr).length ≤ 1 := by
  rw [h.out_eq]
  cases o' <;> simp

/-- Each take of `r` has its give, but the one of what is still out. -/
theorem Linear.balance (r : ρ) (h : Linear none tr o') :
    tr.count (.take r) = tr.count (.give r) + if r ∈ out tr then 1 else 0 := by
  rw [h.out_eq]
  induction h with
  | nil => simp
  | @snoc _ _ tr u _ hu ih =>
    rw [List.count_append, List.count_append]
    cases hu with
    | idle => simpa using ih
    | take r' =>
      simp only [Option.toList_none, List.not_mem_nil, ↓reduceIte] at ih
      by_cases hr : r = r'
      · subst hr; simp [ih]
      · simp [ih, hr, Ne.symm hr]
    | use r' => simpa using ih
    | give r' =>
      by_cases hr : r = r'
      · subst hr; simpa using ih
      · simpa [hr, Ne.symm hr] using ih

end Use

end Lib
