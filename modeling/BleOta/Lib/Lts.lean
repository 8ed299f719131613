/-!
# Labelled systems, runs and invariants

A system (`Lts`) is a set of initial states and a deterministic partial step: the label of a step
holds every choice that the step makes. A concurrent program is such a system when the label also
says which task moves.

* `Lts.Reach`: the reachable states. `Lts.Reach.invariant`: an inductive invariant holds in every
  reachable state.
* `Lts.Run C s s'`: a run from `s` to `s'` whose steps all meet the condition `C` of the state
  before the step and of the label. `Lts.Run.invariant`: what every such step keeps, the run
  keeps.
* `Lts.exec`: the run of a list of labels, which a closed example evaluates (`exec_reach`,
  `exec_run`).
* `Lts.Always`: what holds in every state of such a run; `always_iff_meets` gives the exact
  condition on its steps.
* `Lts.Leads`: every run of such steps that goes on as long as it can comes to a state with `P`;
  `Leads.of_measure` shows it with an invariant and a measure.
* `Reach.monitored`: a system that reads the events of another one, and is never stuck.
* `Lts.Sim`: a map of states that takes each step to one step or to none, so reachable states go
  to reachable states (`Sim.reach`).
* `Lts.LabelSim`: such a map that also says which step it is; it takes a run to the run of these
  labels (`LabelSim.exec`).
-/

namespace Lib

/-- The initial states and the step of each label (`none`: the step is not possible). -/
structure Lts (σ ℓ : Type) where
  init : σ → Prop
  step : ℓ → σ → Option σ

namespace Lts

variable {σ ℓ τ κ : Type} (S : Lts σ ℓ) (T : Lts τ κ)

/-- The states that a run from an initial state reaches. -/
inductive Reach : σ → Prop
  | init {s : σ} : S.init s → Reach s
  | step {s s' : σ} (l : ℓ) : Reach s → S.step l s = some s' → Reach s'

/-- A run from the first state to the second whose steps all meet `C`. -/
inductive Run (C : σ → ℓ → Prop) : σ → σ → Prop
  | refl (s : σ) : Run C s s
  | step {s s' s'' : σ} (l : ℓ) : Run C s s' → C s' l → S.step l s' = some s'' → Run C s s''

/-- The state after the steps `ls`. -/
def exec : List ℓ → σ → Option σ
  | [], s => some s
  | l :: ls, s => (S.step l s).bind (exec ls)

/-- The state after the steps `ls`, or `s` if one of them is not possible. -/
def run (ls : List ℓ) (s : σ) : σ := (S.exec ls s).getD s

/-- Every step of the list meets `C` (and is possible). -/
def Meets (C : σ → ℓ → Prop) : List ℓ → σ → Prop
  | [], _ => True
  | l :: ls, s => C s l ∧ ∃ s', S.step l s = some s' ∧ Meets C ls s'

/-- `P` holds in every state that the steps `ls` pass through (and they are possible). -/
def Always (P : σ → Prop) : List ℓ → σ → Prop
  | [], s => P s
  | l :: ls, s => P s ∧ ∃ s', S.step l s = some s' ∧ Always P ls s'

variable {S T} {C D : σ → ℓ → Prop}

/-- An inductive invariant holds in every reachable state. -/
theorem Reach.invariant {I : σ → Prop} (h0 : ∀ s, S.init s → I s)
    (hstep : ∀ l s s', S.Reach s → I s → S.step l s = some s' → I s') {s : σ}
    (hs : S.Reach s) : I s := by
  induction hs with
  | init h => exact h0 _ h
  | step l hr hst ih => exact hstep l _ _ hr ih hst

/-- What every step that meets `C` keeps holds after a run of such steps. -/
theorem Run.invariant {I : σ → Prop} (hstep : ∀ l s s', I s → C s l → S.step l s = some s' → I s')
    {s s' : σ} (hr : S.Run C s s') (hs : I s) : I s' := by
  induction hr with
  | refl => exact hs
  | step l _ hc hst ih => exact hstep l _ _ ih hc hst

theorem Run.mono (h : ∀ s l, C s l → D s l) {s s' : σ} (hr : S.Run C s s') : S.Run D s s' := by
  induction hr with
  | refl => exact .refl _
  | step l _ hc hst ih => exact .step l ih (h _ _ hc) hst

theorem Run.trans {s s' s'' : σ} (h : S.Run C s s') (h' : S.Run C s' s'') : S.Run C s s'' := by
  induction h' with
  | refl => exact h
  | step l _ hc hst ih => exact .step l ih hc hst

theorem Run.head {s s' s'' : σ} (l : ℓ) (hc : C s l) (hst : S.step l s = some s')
    (h : S.Run C s' s'') : S.Run C s s'' :=
  Run.trans (.step l (.refl s) hc hst) h

/-! ## Runs of a list of labels -/

@[simp] theorem exec_nil (s : σ) : S.exec [] s = some s := rfl

theorem exec_cons {l : ℓ} {ls : List ℓ} {s s'' : σ} :
    S.exec (l :: ls) s = some s'' ↔ ∃ s', S.step l s = some s' ∧ S.exec ls s' = some s'' := by
  simp [exec, Option.bind_eq_some_iff]

theorem exec_append {ls ls' : List ℓ} {s s'' : σ} :
    S.exec (ls ++ ls') s = some s'' ↔ ∃ s', S.exec ls s = some s' ∧ S.exec ls' s' = some s'' := by
  induction ls generalizing s with
  | nil => simp
  | cons l ls ih =>
    rw [List.cons_append, exec_cons]
    constructor
    · rintro ⟨s₁, h1, h2⟩
      obtain ⟨s₂, h3, h4⟩ := ih.mp h2
      exact ⟨s₂, exec_cons.mpr ⟨s₁, h1, h3⟩, h4⟩
    · rintro ⟨s₂, h1, h2⟩
      obtain ⟨s₁, h3, h4⟩ := exec_cons.mp h1
      exact ⟨s₁, h3, ih.mpr ⟨s₂, h4, h2⟩⟩

theorem exec_snoc {l : ℓ} {ls : List ℓ} {s s'' : σ} :
    S.exec (ls ++ [l]) s = some s'' ↔ ∃ s', S.exec ls s = some s' ∧ S.step l s' = some s'' := by
  rw [exec_append]
  simp [exec_cons]

theorem meets_append_left {ls ls' : List ℓ} {s : σ} (h : S.Meets C (ls ++ ls') s) :
    S.Meets C ls s := by
  induction ls generalizing s with
  | nil => trivial
  | cons l ls ih =>
    obtain ⟨hc, s', hst, hm⟩ := h
    exact ⟨hc, s', hst, ih hm⟩

/-- The steps of `ls` and then one more. -/
theorem meets_snoc {l : ℓ} {ls : List ℓ} {s s' s'' : σ} (h : S.exec ls s = some s')
    (hst : S.step l s' = some s'') : S.Meets C (ls ++ [l]) s ↔ S.Meets C ls s ∧ C s' l := by
  induction ls generalizing s with
  | nil =>
    cases h
    simp [Meets, hst]
  | cons k ls ih =>
    obtain ⟨s₁, h1, h2⟩ := exec_cons.mp h
    simp [Meets, h1, ih h2, and_assoc]

/-- The condition at one of the steps. -/
theorem meets_at {l : ℓ} {ls pre post : List ℓ} {s x : σ} (hm : S.Meets C ls s)
    (hls : ls = pre ++ l :: post) (hx : S.exec pre s = some x) : C x l := by
  subst hls
  induction pre generalizing s with
  | nil =>
    cases hx
    exact hm.1
  | cons k pre ih =>
    obtain ⟨-, s₁, h1, hm'⟩ := hm
    obtain ⟨s₂, h2, h3⟩ := exec_cons.mp hx
    rw [h1] at h2
    cases h2
    exact ih h3 hm'

/-- Conditions that are the same in every reachable state are met by the same lists. -/
theorem meets_congr {ls : List ℓ} {s : σ} (h : ∀ s l, S.Reach s → (C s l ↔ D s l))
    (hs : S.Reach s) : S.Meets C ls s ↔ S.Meets D ls s := by
  induction ls generalizing s with
  | nil => exact Iff.rfl
  | cons l ls ih =>
    refine and_congr (h s l hs) (exists_congr fun s' => and_congr_right fun hst => ?_)
    exact ih (.step l hs hst)

/-- `P` holds all along exactly if every step meets `C`, where a step that meets `C` keeps an
invariant that has `P`, and one that does not breaks `P`. -/
theorem always_iff_meets {I P : σ → Prop} (hIP : ∀ s, I s → P s)
    (hkeep : ∀ l s s', I s → C s l → S.step l s = some s' → I s')
    (hbreak : ∀ l s s', I s → S.step l s = some s' → P s' → C s l) {ls : List ℓ} {s : σ}
    (hs : I s) : S.Always P ls s ↔ S.Meets C ls s := by
  induction ls generalizing s with
  | nil => exact ⟨fun _ => trivial, fun _ => hIP s hs⟩
  | cons l ls ih =>
    constructor
    · rintro ⟨-, s', hst, ha⟩
      have hP : P s' := by
        cases ls with
        | nil => exact ha
        | cons => exact ha.1
      have hc := hbreak l s s' hs hst hP
      exact ⟨hc, s', hst, (ih (hkeep l s s' hs hc hst)).mp ha⟩
    · rintro ⟨hc, s', hst, hm⟩
      exact ⟨hIP s hs, s', hst, (ih (hkeep l s s' hs hc hst)).mpr hm⟩

theorem exec_reach {ls : List ℓ} {s s' : σ} (hs : S.Reach s) (h : S.exec ls s = some s') :
    S.Reach s' := by
  induction ls generalizing s with
  | nil => cases h; exact hs
  | cons l ls ih =>
    obtain ⟨s₁, h1, h2⟩ := exec_cons.mp h
    exact ih (.step l hs h1) h2

theorem run_reach {s : σ} (hs : S.Reach s) (ls : List ℓ) : S.Reach (S.run ls s) := by
  unfold run
  cases h : S.exec ls s with
  | none => exact hs
  | some s' => exact exec_reach hs h

/-- A list of labels whose steps meet `C` is a run. -/
theorem exec_run {ls : List ℓ} {s s' : σ} (hm : S.Meets C ls s) (h : S.exec ls s = some s') :
    S.Run C s s' := by
  induction ls generalizing s with
  | nil => cases h; exact .refl _
  | cons l ls ih =>
    obtain ⟨hc, s₁, h1, hm'⟩ := hm
    obtain ⟨s₂, h2, h3⟩ := exec_cons.mp h
    rw [h1] at h2
    cases h2
    exact .head l hc h1 (ih hm' h3)

/-- If the labels of the list meet `C` in every state, its steps are a run. -/
theorem exec_run_forall {ls : List ℓ} {s s' : σ} (hC : ∀ l ∈ ls, ∀ s, C s l)
    (h : S.exec ls s = some s') : S.Run C s s' := by
  induction ls generalizing s with
  | nil => cases h; exact .refl _
  | cons l ls ih =>
    obtain ⟨s₁, h1, h2⟩ := exec_cons.mp h
    exact .head l (hC l (List.mem_cons_self ..) s) h1
      (ih (fun l' hl' => hC l' (List.mem_cons_of_mem _ hl')) h2)

/-! ## Inevitability -/

variable (S C) in
/-- The state has `P`, or a step that meets `C` is possible and all of them lead to `P`. -/
inductive Leads (P : σ → Prop) : σ → Prop
  | here {s : σ} : P s → Leads P s
  | next {s : σ} : (∃ l s', C s l ∧ S.step l s = some s') →
      (∀ l s', C s l → S.step l s = some s' → Leads P s') → Leads P s

/-- With an invariant by which there is a step until `P` holds, and a measure that every step
lowers, all runs come to `P`. -/
theorem Leads.of_measure {I P : σ → Prop} (m : σ → Nat)
    (hstep : ∀ l s s', I s → ¬P s → C s l → S.step l s = some s' → I s' ∧ m s' < m s)
    (hnext : ∀ s, I s → ¬P s → ∃ l s', C s l ∧ S.step l s = some s') {s : σ} (hs : I s) :
    S.Leads C P s := by
  induction hm : m s using Nat.strongRecOn generalizing s with
  | ind n ih =>
    by_cases hP : P s
    · exact .here hP
    · refine .next (hnext s hs hP) fun l s' hc hst => ?_
      obtain ⟨hs', hlt⟩ := hstep l s s' hs hP hc hst
      exact ih _ (hm ▸ hlt) hs' rfl

/-- What an invariant and `P` imply is come to as well. -/
theorem Leads.imp {I P Q : σ → Prop} (hI : ∀ l s s', I s → C s l → S.step l s = some s' → I s')
    (h : ∀ s, I s → P s → Q s) {s : σ} (hs : I s) (hl : S.Leads C P s) : S.Leads C Q s := by
  induction hl with
  | here hP => exact .here (h _ hs hP)
  | next hex _ ih => exact .next hex fun l s' hc hst => ih l s' hc hst (hI l _ s' hs hc hst)

/-! ## Monitors -/

/-- `T` reads the events `f s` of every run of `S`, and `R` holds between their states. -/
theorem Reach.monitored {f : σ → List κ} {R : σ → τ → Prop} {w₀ : τ}
    (h0 : ∀ s, S.init s → f s = [] ∧ R s w₀)
    (hstep : ∀ l s s' w, S.Reach s → R s w → S.step l s = some s' →
      ∃ es w', f s' = f s ++ es ∧ T.exec es w = some w' ∧ R s' w') {s : σ}
    (hs : S.Reach s) : ∃ w, T.exec (f s) w₀ = some w ∧ R s w := by
  induction hs with
  | init hi =>
    obtain ⟨hnil, hR⟩ := h0 _ hi
    exact ⟨w₀, by rw [hnil]; rfl, hR⟩
  | step l hr hst ih =>
    obtain ⟨w, hw, hR⟩ := ih
    obtain ⟨es, w', hes, hex, hR'⟩ := hstep l _ _ w hr hR hst
    exact ⟨w', by rw [hes]; exact exec_append.mpr ⟨w, hw, hex⟩, hR'⟩

/-! ## Simulation by a map of states -/

/-- `f` takes initial states to initial states, and each step to one step or to none. -/
structure Sim (S : Lts σ ℓ) (T : Lts τ κ) (f : σ → τ) : Prop where
  init : ∀ s, S.init s → T.init (f s)
  step : ∀ l s s', S.step l s = some s' → f s' = f s ∨ ∃ k, T.step k (f s) = some (f s')

theorem Sim.reach {f : σ → τ} (h : Sim S T f) {s : σ} (hs : S.Reach s) : T.Reach (f s) := by
  induction hs with
  | init hi => exact .init (h.init _ hi)
  | step l _ hst ih =>
    rcases h.step l _ _ hst with he | ⟨k, hk⟩
    · rw [he]; exact ih
    · exact .step k ih hk

variable (S) in
/-- The labels that `g` gives to the steps `ls` from `s` on. -/
def labels (g : σ → ℓ → Option κ) : List ℓ → σ → List κ
  | [], _ => []
  | l :: ls, s => (g s l).toList ++ (S.step l s).elim [] (labels g ls)

/-- `f` takes a step with the label `l` of `s` to the step with the label `g s l`, or to none if it
gives no label. -/
structure LabelSim (S : Lts σ ℓ) (T : Lts τ κ) (f : σ → τ) (g : σ → ℓ → Option κ) : Prop
    extends Sim S T f where
  label : ∀ l s s', S.step l s = some s' → T.exec (g s l).toList (f s) = some (f s')

theorem LabelSim.of_label {f : σ → τ} {g : σ → ℓ → Option κ}
    (hinit : ∀ s, S.init s → T.init (f s))
    (h : ∀ l s s', S.step l s = some s' → T.exec (g s l).toList (f s) = some (f s')) :
    LabelSim S T f g where
  init := hinit
  step l s s' hst := by
    have hex := h l s s' hst
    cases hk : g s l with
    | none =>
      rw [hk] at hex
      exact .inl (Option.some.inj hex).symm
    | some k =>
      rw [hk] at hex
      obtain ⟨t, h1, h2⟩ := exec_cons.mp hex
      cases h2
      exact .inr ⟨k, h1⟩
  label := h

/-- **A run** goes to the run of its labels. -/
theorem LabelSim.exec {f : σ → τ} {g : σ → ℓ → Option κ} (h : LabelSim S T f g) {ls : List ℓ}
    {s s' : σ} (hs : S.exec ls s = some s') : T.exec (S.labels g ls s) (f s) = some (f s') := by
  induction ls generalizing s with
  | nil =>
    cases hs
    rfl
  | cons l ls ih =>
    obtain ⟨s₁, h1, h2⟩ := exec_cons.mp hs
    rw [labels, h1]
    exact exec_append.mpr ⟨f s₁, h.label l s s₁ h1, ih h2⟩

theorem labels_snoc {g : σ → ℓ → Option κ} {ls : List ℓ} {l : ℓ} {s s' : σ}
    (hs : S.exec ls s = some s') :
    S.labels g (ls ++ [l]) s = S.labels g ls s ++ (g s' l).toList := by
  induction ls generalizing s with
  | nil =>
    cases hs
    have hrest : (S.step l s').elim [] (S.labels g []) = [] := by cases S.step l s' <;> rfl
    show (g s' l).toList ++ (S.step l s').elim [] (S.labels g []) = _
    rw [hrest, List.append_nil]
    rfl
  | cons k ls ih =>
    obtain ⟨s₁, h1, h2⟩ := exec_cons.mp hs
    rw [List.cons_append, labels, labels, h1]
    simp only [Option.elim_some, ih h2, List.append_assoc]

end Lts

end Lib
