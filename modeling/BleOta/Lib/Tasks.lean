import BleOta.Lib.Lts
import Mathlib.Logic.Function.Basic

/-!
# Operations of several tasks, step by step

Each task issues operations one after the other; an operation is a chain of atomic steps on a shared
state (`Tasks`), and the steps of different tasks come in any order (`Tasks.lts`).

* `serial`: operations in one piece, one after the other.
* `ofTask`: the operations of one task in a history.
* `Tasks.Points`: each operation takes its place in a serial history at one of its steps; a relation
  `I` between the state of the system and the state of the history holds after each step.
* `Tasks.Points.exists_history`: then every run has a history, which keeps the order of each task.
-/

namespace Lib

variable {τ σ ω π ρ : Type} [DecidableEq τ]

/-! ## Histories -/

/-- The operations of the history, in one piece each. -/
def serial (run : ω → σ → σ) (h : List (τ × ω)) (s : σ) : σ := h.foldl (fun s e => run e.2 s) s

/-- The operations of the task `t`. -/
def ofTask (t : τ) (h : List (τ × ω)) : List ω := (h.filter (·.1 = t)).map Prod.snd

omit [DecidableEq τ] in
theorem serial_snoc (run : ω → σ → σ) (h : List (τ × ω)) (e : τ × ω) (s : σ) :
    serial run (h ++ [e]) s = run e.2 (serial run h s) := by
  unfold serial
  rw [List.foldl_append]
  rfl

theorem ofTask_snoc_self (t : τ) (h : List (τ × ω)) (o : ω) :
    ofTask t (h ++ [(t, o)]) = ofTask t h ++ [o] := by
  simp [ofTask]

theorem ofTask_snoc_ne {t u : τ} (hne : u ≠ t) (h : List (τ × ω)) (o : ω) :
    ofTask u (h ++ [(t, o)]) = ofTask u h := by
  simp [ofTask, hne.symm]

/-! ## The system -/

/-- Operations `ω` in steps over the shared state `σ`; `π` are the places of an operation, with its
local variables. -/
structure Tasks (σ ω π ρ : Type) where
  enter : ω → π
  resume : ω → π → σ → σ × (π ⊕ ρ)

namespace Tasks

/-- The shared state, the running operation of each task, and the operations that have ended. -/
structure St (τ σ ω π : Type) where
  st : σ
  place : τ → Option (ω × π)
  done : List (τ × ω)

/-- A move: a task issues an operation, or does the next step of its operation. -/
inductive Move (τ ω : Type) where
  | call (t : τ) (o : ω)
  | step (t : τ)

variable (T : Tasks σ ω π ρ)

/-- The operation `o` of the task `t` goes on at `p`. -/
def St.goes (x : St τ σ ω π) (t : τ) (o : ω) (p : π) (s : σ) : St τ σ ω π :=
  { x with st := s, place := Function.update x.place t (some (o, p)) }

/-- The operation `o` of the task `t` has ended. -/
def St.ends (x : St τ σ ω π) (t : τ) (o : ω) (s : σ) : St τ σ ω π :=
  { st := s, place := Function.update x.place t none, done := x.done ++ [(t, o)] }

/-- A move of the system. -/
def move : Move τ ω → St τ σ ω π → Option (St τ σ ω π)
  | .call t o, x => match x.place t with
    | none => some (x.goes t o (T.enter o) x.st)
    | some _ => none
  | .step t, x => match x.place t with
    | none => none
    | some (o, p) => match T.resume o p x.st with
      | (s, .inl p) => some (x.goes t o p s)
      | (s, .inr _) => some (x.ends t o s)

/-- The system, with all tasks idle in the beginning. -/
def lts (init : σ → Prop) : Lts (St τ σ ω π) (Move τ ω) :=
  ⟨fun x => init x.st ∧ (∀ t, x.place t = none) ∧ x.done = [], T.move⟩

/-! ## Histories of a run -/

/-- What the running operation of a task adds to the history: `placed o p` says that at `p` the
operation has already taken its place. -/
def slot (placed : ω → π → Bool) : Option (ω × π) → List ω
  | some (o, p) => if placed o p then [o] else []
  | none => []

/-- Each operation takes its place in the history at one of its steps (at the latest at its last),
and `I` holds between the system and the state after the history. The steps meet `C`. -/
structure Points (C : St τ σ ω π → Move τ ω → Prop) (run : ω → σ → σ)
    (I : St τ σ ω π → σ → Prop) (placed : ω → π → Bool) : Prop where
  call : ∀ x s t o, I x s → x.place t = none →
    placed o (T.enter o) = false ∧ I (x.goes t o (T.enter o) x.st) s
  goes : ∀ x s t o p s' p', I x s → x.place t = some (o, p) → C x (.step t) →
    T.resume o p x.st = (s', .inl p') →
    (placed o p' = placed o p ∧ I (x.goes t o p' s') s) ∨
    (placed o p = false ∧ placed o p' = true ∧ I (x.goes t o p' s') (run o s))
  ends : ∀ x s t o p s' r, I x s → x.place t = some (o, p) → C x (.step t) →
    T.resume o p x.st = (s', .inr r) →
    (placed o p = true ∧ I (x.ends t o s') s) ∨
    (placed o p = false ∧ I (x.ends t o s') (run o s))

variable {T} {C : St τ σ ω π → Move τ ω → Prop} {run : ω → σ → σ}
  {I : St τ σ ω π → σ → Prop} {placed : ω → π → Bool} {x x' : St τ σ ω π}

/-- The history `h` has the operations of each task in order: the ones that have ended, and the
running one if it has taken its place. -/
def InOrder (placed : ω → π → Bool) (x : St τ σ ω π) (h : List (τ × ω)) : Prop :=
  ∀ t, ofTask t h = ofTask t x.done ++ slot placed (x.place t)

/-- A move of the task `t` leaves the operations of the other tasks as they are. -/
theorem InOrder.update {h h' done : List (τ × ω)} {t : τ} {place : Option (ω × π)} {s : σ}
    (hin : InOrder placed x h) (ht : ofTask t h' = ofTask t done ++ slot placed place)
    (hh : ∀ u, u ≠ t → ofTask u h' = ofTask u h)
    (hd : ∀ u, u ≠ t → ofTask u done = ofTask u x.done) :
    InOrder placed ⟨s, Function.update x.place t place, done⟩ h' := by
  intro u
  dsimp only
  by_cases hu : u = t
  · rw [hu, Function.update_self]
    exact ht
  · rw [Function.update_of_ne hu, hh u hu, hd u hu]
    exact hin u

theorem InOrder.call {h : List (τ × ω)} {t : τ} {o : ω} {p : π} {s : σ}
    (hin : InOrder placed x h) (hpl : x.place t = none) (hp : placed o p = false) :
    InOrder placed (x.goes t o p s) h := by
  apply hin.update _ (fun _ _ => rfl) (fun _ _ => rfl)
  rw [hin t, hpl]
  simp [slot, hp]

theorem InOrder.goes {h : List (τ × ω)} {t : τ} {o : ω} {p p' : π} {s : σ}
    (hin : InOrder placed x h) (hpl : x.place t = some (o, p)) (hp : placed o p' = placed o p) :
    InOrder placed (x.goes t o p' s) h := by
  apply hin.update _ (fun _ _ => rfl) (fun _ _ => rfl)
  rw [hin t, hpl]
  simp [slot, hp]

theorem InOrder.point {h : List (τ × ω)} {t : τ} {o : ω} {p p' : π} {s : σ}
    (hin : InOrder placed x h) (hpl : x.place t = some (o, p)) (hp : placed o p = false)
    (hp' : placed o p' = true) : InOrder placed (x.goes t o p' s) (h ++ [(t, o)]) := by
  apply hin.update _ (fun u hu => ofTask_snoc_ne hu h o) (fun _ _ => rfl)
  rw [ofTask_snoc_self, hin t, hpl]
  simp [slot, hp, hp']

theorem InOrder.ends {h : List (τ × ω)} {t : τ} {o : ω} {p : π} {s : σ}
    (hin : InOrder placed x h) (hpl : x.place t = some (o, p)) (hp : placed o p = true) :
    InOrder placed (x.ends t o s) h := by
  apply hin.update _ (fun _ _ => rfl) (fun u hu => ofTask_snoc_ne hu x.done o)
  rw [ofTask_snoc_self, hin t, hpl]
  simp [slot, hp]

theorem InOrder.last {h : List (τ × ω)} {t : τ} {o : ω} {p : π} {s : σ}
    (hin : InOrder placed x h) (hpl : x.place t = some (o, p)) (hp : placed o p = false) :
    InOrder placed (x.ends t o s) (h ++ [(t, o)]) := by
  apply hin.update _ (fun u hu => ofTask_snoc_ne hu h o) (fun u hu => ofTask_snoc_ne hu x.done o)
  rw [ofTask_snoc_self, ofTask_snoc_self, hin t, hpl]
  simp [slot, hp]

/-- One move. -/
theorem Points.move {m : Move τ ω} {h : List (τ × ω)} {s : σ}
    (hP : T.Points C run I placed) (hI : I x (serial run h s)) (hin : InOrder placed x h)
    (hC : C x m) (hst : T.move m x = some x') :
    ∃ h', I x' (serial run h' s) ∧ InOrder placed x' h' := by
  cases m with
  | call t o =>
    simp only [Tasks.move] at hst
    split at hst
    next hpl =>
      cases hst
      obtain ⟨hp, hI'⟩ := hP.call x _ t o hI hpl
      exact ⟨h, hI', hin.call hpl hp⟩
    · cases hst
  | step t =>
    simp only [Tasks.move] at hst
    split at hst
    · cases hst
    next o p hpl =>
      split at hst
      next s' p' hres =>
        cases hst
        rcases hP.goes x _ t o p s' p' hI hpl hC hres with ⟨hp, hI'⟩ | ⟨hp, hp', hI'⟩
        · exact ⟨h, hI', hin.goes hpl hp⟩
        · exact ⟨h ++ [(t, o)], by rw [serial_snoc]; exact hI', hin.point hpl hp hp'⟩
      next s' r hres =>
        cases hst
        rcases hP.ends x _ t o p s' r hI hpl hC hres with ⟨hp, hI'⟩ | ⟨hp, hI'⟩
        · exact ⟨h, hI', hin.ends hpl hp⟩
        · exact ⟨h ++ [(t, o)], by rw [serial_snoc]; exact hI', hin.last hpl hp⟩

/-- **Every run of such operations has a history**: in the state `I` after it, and in the order of
each task. -/
theorem Points.exists_history {init : σ → Prop} {x₀ : St τ σ ω π} (hP : T.Points C run I placed)
    (h0 : (T.lts init).init x₀) (hI : I x₀ x₀.st) (hr : (T.lts init).Run C x₀ x) :
    ∃ h, I x (serial run h x₀.st) ∧ InOrder placed x h := by
  refine hr.invariant (I := fun x => ∃ h, I x (serial run h x₀.st) ∧ InOrder placed x h)
    (fun m y y' hy hC hst => ?_) ⟨[], hI, fun t => ?_⟩
  · obtain ⟨h, hI, hin⟩ := hy
    exact hP.move hI hin hC hst
  · obtain ⟨-, hidle, hdone⟩ := h0
    rw [hidle, hdone]
    rfl

end Tasks

end Lib
