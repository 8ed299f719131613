import BleOta.Lib.Lts
import Mathlib.Data.List.Forall2
import Mathlib.Logic.Function.Iterate

/-!
# Code in critical sections: one serial caller and one interfering action

An operation is a chain of atomic sections (`Code`): `enter` is its first section, `resume` a
later one, and a section either ends the operation with a result or leaves it at the next one.
One caller issues operations one after the other; another task may do the action `poke` before
any section. `Code.lts` is that system: a move is a call (with its first section), the next
section of the running operation, or a poke. Its log has the calls, the returns, the pokes and
what the sections emit.

* `Code.Whole`: an operation from its call to its result, with the moves between (`Code.Rest`: the
  part after a section).
* `Code.whole`: an operation without a poke inside, computed (`Code.whole_reach`).
* `Lin ls ls'`: `ls'` are the moves `ls` with every operation run in one piece and each poke that
  fell into it moved right before or right after it.
* `Code.linearize`: if each operation is atomic (`Code.Atomic`: a poke inside it is as good as one
  before it, or as one after it), every run has such a linearization, with the same results and
  the same final state.
-/

namespace Lib

/-- Code in sections, over the states `σ`, operations `ω`, places between two sections `π`,
results `ρ` and emitted events `ε`. After a result with `ends` the caller is gone; the other task
may still act. -/
structure Code (σ ω π ρ ε : Type) where
  enter : ω → σ → σ × List ε × (π ⊕ ρ)
  resume : ω → π → σ → σ × List ε × (π ⊕ ρ)
  poke : σ → σ
  ends : ρ → Bool

/-- Where the caller is. -/
inductive Place (ω π : Type) where
  | idle
  /-- Inside an operation, between two sections. -/
  | busy (o : ω) (p : π)
  | gone
  deriving DecidableEq

/-- A log entry. -/
inductive Entry (ω ρ ε : Type) where
  | call (o : ω)
  | ev (e : ε)
  | ret (o : ω) (r : ρ)
  | poke

/-- A move: a call, the next section of the running operation, a poke. -/
inductive Move (ω : Type) where
  | call (o : ω)
  | run
  | poke
  deriving DecidableEq

namespace Code

variable {σ ω π ρ ε : Type}

/-- A state of the system: the shared state, the caller's place, the log. -/
structure St (σ ω π ρ ε : Type) where
  st : σ
  place : Place ω π
  log : List (Entry ω ρ ε)

variable (C : Code σ ω π ρ ε)

/-- The state after a section of the operation `o`. -/
def after (o : ω) (x : St σ ω π ρ ε) (out : σ × List ε × (π ⊕ ρ)) : St σ ω π ρ ε :=
  match out with
  | (s, es, .inl p) => ⟨s, .busy o p, x.log ++ es.map .ev⟩
  | (s, es, .inr r) =>
    ⟨s, if C.ends r then .gone else .idle, x.log ++ es.map .ev ++ [.ret o r]⟩

/-- The caller's place after a section of the operation `o`. -/
def next (o : ω) : π ⊕ ρ → Place ω π
  | .inl p => .busy o p
  | .inr r => if C.ends r then .gone else .idle

/-- The log entry of a section that ends the operation `o`. -/
def returned (o : ω) : π ⊕ ρ → List (Entry ω ρ ε)
  | .inl _ => []
  | .inr r => [.ret o r]

/-- One move. -/
def step : Move ω → St σ ω π ρ ε → Option (St σ ω π ρ ε)
  | .call o, x => match x.place with
    | .idle => some (C.after o { x with log := x.log ++ [.call o] } (C.enter o x.st))
    | _ => none
  | .run, x => match x.place with
    | .busy o p => some (C.after o x (C.resume o p x.st))
    | _ => none
  | .poke, x => some { x with st := C.poke x.st, log := x.log ++ [.poke] }

/-- The system of the code, from the states `init`. -/
def lts (init : St σ ω π ρ ε → Prop) : Lts (St σ ω π ρ ε) (Move ω) := ⟨init, C.step⟩

/-! ## Whole operations -/

/-- The rest of the operation `o` from the section at `p`: its moves, what it emits, the state
after it and its result. It ends with a section. -/
inductive Rest (o : ω) : π → σ → List (Move ω) → List ε → σ → ρ → Prop
  | ends {p s s' es r} : C.resume o p s = (s', es, .inr r) → Rest o p s [.run] es s' r
  | goes {p p' s s₁ s' ms es es' r} : C.resume o p s = (s₁, es, .inl p') →
      Rest o p' s₁ ms es' s' r → Rest o p s (.run :: ms) (es ++ es') s' r
  | poked {p s s' ms es r} : Rest o p (C.poke s) ms es s' r → Rest o p s (.poke :: ms) es s' r

/-- The operation `o` from its call: the moves after the call, what it emits, the state after it
and its result. -/
inductive Whole (o : ω) : σ → List (Move ω) → List ε → σ → ρ → Prop
  | ends {s s' es r} : C.enter o s = (s', es, .inr r) → Whole o s [] es s' r
  | goes {s s₁ s' p ms es es' r} : C.enter o s = (s₁, es, .inl p) →
      Rest C o p s₁ ms es' s' r → Whole o s ms (es ++ es') s' r

/-- The pokes among some moves. -/
def pokes (ms : List (Move ω)) : Nat := ms.countP (· matches .poke)

@[simp] theorem pokes_poke (ms : List (Move ω)) : pokes (.poke :: ms) = pokes ms + 1 := by
  simp [pokes]

@[simp] theorem pokes_run (ms : List (Move ω)) : pokes (.run :: ms) = pokes ms := by
  simp [pokes]

/-- The operation is atomic for the pokes, up to `R` on what it emits: with `k` pokes inside it
does what it does with the `k` pokes before it, or with the `k` pokes after it. -/
def Atomic (R : ω → ρ → List ε → List ε → Prop) (o : ω) : Prop :=
  ∀ s ms es s' r, C.Whole o s ms es s' r → ∃ ms' es', .poke ∉ ms' ∧ R o r es es' ∧
    (C.Whole o (C.poke^[pokes ms] s) ms' es' s' r ∨
      ∃ s₁, C.Whole o s ms' es' s₁ r ∧ C.poke^[pokes ms] s₁ = s')

/-! ## What a step can do -/

variable {C} {x x' : St σ ω π ρ ε} {o : ω} {s s' : σ} {p : π} {es : List ε} {r : ρ}

theorem step_call (h : C.step (.call o) x = some x') :
    x.place = .idle ∧
      x' = C.after o { x with log := x.log ++ [.call o] } (C.enter o x.st) := by
  simp only [step] at h
  split at h
  · rename_i hp; exact ⟨hp, (Option.some.inj h).symm⟩
  · cases h

theorem step_run (h : C.step .run x = some x') :
    ∃ o p, x.place = .busy o p ∧ x' = C.after o x (C.resume o p x.st) := by
  simp only [step] at h
  split at h
  · rename_i o p hp; exact ⟨o, p, hp, (Option.some.inj h).symm⟩
  · cases h

theorem step_poke (h : C.step .poke x = some x') :
    x' = { x with st := C.poke x.st, log := x.log ++ [.poke] } :=
  (Option.some.inj h).symm

@[simp] theorem after_inl : C.after o x (s, es, .inl p) = ⟨s, .busy o p, x.log ++ es.map .ev⟩ := rfl

@[simp] theorem after_inr : C.after o x (s, es, .inr r) =
    ⟨s, if C.ends r then .gone else .idle, x.log ++ es.map .ev ++ [.ret o r]⟩ := rfl

theorem after_st (out : σ × List ε × (π ⊕ ρ)) : (C.after o x out).st = out.1 := by
  obtain ⟨s, es, p | r⟩ := out <;> rfl

theorem after_place (out : σ × List ε × (π ⊕ ρ)) :
    (C.after o x out).place = C.next o out.2.2 := by
  obtain ⟨s, es, p | r⟩ := out <;> rfl

theorem after_log (out : σ × List ε × (π ⊕ ρ)) :
    (C.after o x out).log = x.log ++ out.2.1.map .ev ++ returned o out.2.2 := by
  obtain ⟨s, es, p | r⟩ := out
  · simp [after, returned]
  · rfl

end Code

/-- `Lin ls ls'`: each operation of `ls` (a call and the moves up to its last section) runs in one
piece in `ls'`, and the pokes inside it stand right before or right after it. -/
inductive Lin {ω : Type} : List (Move ω) → List (Move ω) → Prop
  | nil : Lin [] []
  | poke {ls ls'} : Lin ls ls' → Lin (.poke :: ls) (.poke :: ls')
  | before {o ms ms' ls ls'} : (ms = [] ∨ ms.getLast? = some .run) →
      (∀ m ∈ ms, m = .run ∨ m = .poke) → (∀ m ∈ ms', m = .run) → Lin ls ls' →
      Lin (.call o :: ms ++ ls) (.replicate (Code.pokes ms) .poke ++ .call o :: ms' ++ ls')
  | after {o ms ms' ls ls'} : (ms = [] ∨ ms.getLast? = some .run) →
      (∀ m ∈ ms, m = .run ∨ m = .poke) → (∀ m ∈ ms', m = .run) → Lin ls ls' →
      Lin (.call o :: ms ++ ls) (.call o :: ms' ++ .replicate (Code.pokes ms) .poke ++ ls')

namespace Code

variable {σ ω π ρ ε : Type} {C : Code σ ω π ρ ε}

/-! ## The events of a log -/

/-- What the sections of a log have emitted. -/
def events (log : List (Entry ω ρ ε)) : List ε :=
  log.filterMap fun
    | .ev e => some e
    | _ => none

@[simp] theorem events_nil : events ([] : List (Entry ω ρ ε)) = [] := rfl

@[simp] theorem events_append (log log' : List (Entry ω ρ ε)) :
    events (log ++ log') = events log ++ events log' := List.filterMap_append

@[simp] theorem events_call (o : ω) (log : List (Entry ω ρ ε)) :
    events (.call o :: log) = events log := rfl

@[simp] theorem events_ev (e : ε) (log : List (Entry ω ρ ε)) :
    events (.ev e :: log) = e :: events log := rfl

@[simp] theorem events_ret (o : ω) (r : ρ) (log : List (Entry ω ρ ε)) :
    events (.ret o r :: log) = events log := rfl

@[simp] theorem events_poke (log : List (Entry ω ρ ε)) : events (.poke :: log) = events log := rfl

@[simp] theorem events_map_ev (es : List ε) : events (es.map .ev : List (Entry ω ρ ε)) = es := by
  induction es with
  | nil => rfl
  | cons e es ih => exact congrArg (e :: ·) ih

@[simp] theorem events_returned (o : ω) (p : π ⊕ ρ) :
    events (returned o p : List (Entry ω ρ ε)) = [] := by
  cases p <;> rfl

/-! ## An operation in one piece -/

/-- The rest of an operation after a section, without a poke, for at most `fuel` sections. -/
def finish (C : Code σ ω π ρ ε) (o : ω) : Nat → σ × List ε × (π ⊕ ρ) → Option (σ × List ε × ρ)
  | _, (s, es, .inr r) => some (s, es, r)
  | 0, (_, _, .inl _) => none
  | fuel + 1, (s, es, .inl p) =>
    let out := C.resume o p s
    finish C o fuel (out.1, es ++ out.2.1, out.2.2)

/-- An operation without a poke inside. -/
def whole (C : Code σ ω π ρ ε) (fuel : Nat) (o : ω) (s : σ) : Option (σ × List ε × ρ) :=
  C.finish o fuel (C.enter o s)

/-- The system after an operation that was run in one piece. -/
def returnTo (C : Code σ ω π ρ ε) (o : ω) (x : St σ ω π ρ ε) (out : σ × List ε × ρ) :
    St σ ω π ρ ε :=
  C.after o { x with log := x.log ++ [.call o] } (out.1, out.2.1, .inr out.2.2)

theorem whole_inr {C : Code σ ω π ρ ε} {o : ω} {s s' : σ} {es : List ε} {r : ρ}
    (h : C.enter o s = (s', es, .inr r)) (fuel : Nat) : C.whole fuel o s = some (s', es, r) := by
  rw [whole, h]
  cases fuel <;> rfl

theorem finish_exec {I : St σ ω π ρ ε → Prop} {fuel : Nat} {o : ω} {x : St σ ω π ρ ε}
    {out : σ × List ε × (π ⊕ ρ)} {res : σ × List ε × ρ} (h : C.finish o fuel out = some res) :
    ∃ ms, (C.lts I).exec ms (C.after o x out) =
      some (C.after o x (res.1, res.2.1, .inr res.2.2)) := by
  obtain ⟨s, es, p | r⟩ := out
  · induction fuel generalizing s es p with
    | zero => cases h
    | succ fuel ih =>
      obtain ⟨s', es', hn⟩ : ∃ s' es', C.resume o p s = (s', es', (C.resume o p s).2.2) :=
        ⟨_, _, rfl⟩
      have hstep : (C.lts I).step .run (C.after o x (s, es, .inl p)) =
          some (C.after o x (s', es ++ es', (C.resume o p s).2.2)) := by
        change some (C.after o (C.after o x (s, es, .inl p)) (C.resume o p s)) = _
        rw [hn]
        cases (C.resume o p s).2.2 <;> simp [after]
      simp only [finish] at h
      rw [hn] at h
      cases hq : (C.resume o p s).2.2 with
      | inl p' =>
        rw [hq] at h hstep
        obtain ⟨ms, hms⟩ := ih _ _ _ h
        exact ⟨.run :: ms, Lts.exec_cons.mpr ⟨_, hstep, hms⟩⟩
      | inr r =>
        rw [hq] at h hstep
        cases fuel <;> cases h <;> exact ⟨[.run], Lts.exec_cons.mpr ⟨_, hstep, rfl⟩⟩
  · cases fuel <;> cases h <;> exact ⟨[], rfl⟩

/-- An operation in one piece is a call and steps of the running operation. -/
theorem whole_reach {I : St σ ω π ρ ε → Prop} {fuel : Nat} {o : ω} {x : St σ ω π ρ ε}
    {res : σ × List ε × ρ} (hx : (C.lts I).Reach x) (hp : x.place = .idle)
    (h : C.whole fuel o x.st = some res) : (C.lts I).Reach (C.returnTo o x res) := by
  obtain ⟨ms, hms⟩ := finish_exec (I := I) (x := { x with log := x.log ++ [.call o] }) h
  have hcall : (C.lts I).step (.call o) x =
      some (C.after o { x with log := x.log ++ [.call o] } (C.enter o x.st)) := by
    simp only [lts, step, hp]
  exact Lts.exec_reach hx (Lts.exec_cons.mpr ⟨_, hcall, hms⟩)

/-! ## The finished operations of a log -/

/-- One log entry: the finished operations so far, and what the running one has emitted. -/
def tally : List (ω × ρ × List ε) × List ε → Entry ω ρ ε → List (ω × ρ × List ε) × List ε
  | (d, _), .call _ => (d, [])
  | (d, c), .ev e => (d, c ++ [e])
  | (d, c), .ret o r => (d ++ [(o, r, c)], [])
  | (d, c), .poke => (d, c)

/-- The finished operations of a log, in order, each with its result and what it emitted. -/
def done (log : List (Entry ω ρ ε)) : List (ω × ρ × List ε) := (log.foldl tally ([], [])).1

/-- What the running operation of a log has emitted. -/
def cur (log : List (Entry ω ρ ε)) : List ε := (log.foldl tally ([], [])).2

@[simp] theorem tally_evs (a : List (ω × ρ × List ε) × List ε) (es : List ε) :
    (es.map Entry.ev).foldl tally a = (a.1, a.2 ++ es) := by
  induction es generalizing a with
  | nil => simp
  | cons e es ih => simp [ih, tally]

/-! ## A run of the system is made of whole operations -/

variable {x y : St σ ω π ρ ε} {I : St σ ω π ρ ε → Prop} {o : ω} {r : ρ}

theorem Rest.moves {p s ms es s' r} (h : C.Rest o p s ms es s' r) :
    ms.getLast? = some .run ∧ ∀ m ∈ ms, m = .run ∨ m = .poke := by
  induction h with
  | ends => simp
  | goes _ _ ih =>
    refine ⟨?_, by simpa using ih.2⟩
    rw [List.getLast?_cons, ih.1]; rfl
  | poked _ ih =>
    refine ⟨?_, by simpa using ih.2⟩
    rw [List.getLast?_cons, ih.1]; rfl

theorem Whole.moves {s ms es s' r} (h : C.Whole o s ms es s' r) :
    (ms = [] ∨ ms.getLast? = some .run) ∧ ∀ m ∈ ms, m = .run ∨ m = .poke := by
  cases h with
  | ends => simp
  | goes _ hr => exact ⟨.inr hr.moves.1, hr.moves.2⟩

/-- The rest of an operation, as moves of the system. -/
theorem Rest.exec {p s ms es s' r} (h : C.Rest o p s ms es s' r) (hp : x.place = .busy o p)
    (hs : x.st = s) :
    ∃ x', (C.lts I).exec ms x = some x' ∧ x'.st = s' ∧
      x'.place = (if C.ends r then .gone else .idle) ∧
      done x'.log = done x.log ++ [(o, r, cur x.log ++ es)] := by
  induction h generalizing x with
  | @ends p s s' es r hres =>
    subst hs
    refine ⟨C.after o x (C.resume o p x.st), ?_, ?_⟩
    · simp [Lts.exec, lts, step, hp]
    · simp [hres, done, cur, tally]
  | @goes p p' s s₁ s' ms es es' r hres hrest ih =>
    subst hs
    obtain ⟨x', h1, h2, h3, h4⟩ :=
      ih (x := ⟨s₁, .busy o p', x.log ++ es.map .ev⟩) rfl rfl
    refine ⟨x', Lts.exec_cons.mpr ⟨_, ?_, h1⟩, h2, h3, by simpa [done, cur, tally] using h4⟩
    simp [lts, step, hp, hres]
  | @poked p s s' ms es r hrest ih =>
    subst hs
    obtain ⟨x', h1, h2, h3, h4⟩ :=
      ih (x := { x with st := C.poke x.st, log := x.log ++ [.poke] }) hp rfl
    exact ⟨x', Lts.exec_cons.mpr ⟨_, rfl, h1⟩, h2, h3, by simpa [done, cur, tally] using h4⟩

/-- A whole operation, as moves of the system. -/
theorem Whole.exec {s ms es s' r} (h : C.Whole o s ms es s' r) (hp : x.place = .idle)
    (hs : x.st = s) :
    ∃ x', (C.lts I).exec (.call o :: ms) x = some x' ∧ x'.st = s' ∧
      x'.place = (if C.ends r then .gone else .idle) ∧
      done x'.log = done x.log ++ [(o, r, es)] := by
  subst hs
  cases h with
  | ends hent =>
    refine ⟨C.after o { x with log := x.log ++ [.call o] } (C.enter o x.st), ?_, ?_⟩
    · simp [Lts.exec, lts, step, hp]
    · simp [hent, done, tally]
  | @goes s₁ _ p _ es es' _ hent hrest =>
    obtain ⟨x', h1, h2, h3, h4⟩ :=
      hrest.exec (I := I) (x := ⟨s₁, .busy o p, x.log ++ [.call o] ++ es.map .ev⟩) rfl rfl
    refine ⟨x', Lts.exec_cons.mpr ⟨_, ?_, h1⟩, h2, h3, by simpa [done, cur, tally] using h4⟩
    simp [lts, step, hp, hent]

/-- From inside an operation to outside of one: first the rest of the operation. -/
theorem exec_busy {p ls} (h : (C.lts I).exec ls x = some y) (hp : x.place = .busy o p)
    (hy : ∀ o p, y.place ≠ .busy o p) :
    ∃ ms ls' es x' r, ls = ms ++ ls' ∧ C.Rest o p x.st ms es x'.st r ∧
      x'.place = (if C.ends r then .gone else .idle) ∧
      done x'.log = done x.log ++ [(o, r, cur x.log ++ es)] ∧
      (C.lts I).exec ls' x' = some y := by
  induction ls generalizing x p with
  | nil => cases h; exact absurd hp (hy _ _)
  | cons m ls ih =>
    obtain ⟨x₁, h1, h2⟩ := Lts.exec_cons.mp h
    cases m with
    | call o' => obtain ⟨hc, -⟩ := step_call h1; rw [hp] at hc; cases hc
    | run =>
      obtain ⟨o', p', hp', rfl⟩ := step_run h1
      rw [hp] at hp'; cases hp'
      rcases hres : C.resume o p x.st with ⟨s₁, es, p' | r⟩
      · rw [hres, after_inl] at h2
        obtain ⟨ms, ls', es', x', r, rfl, h3, h4, h5, h6⟩ := ih h2 rfl
        exact ⟨.run :: ms, ls', es ++ es', x', r, rfl, .goes hres h3, h4,
          by simpa [done, cur, tally] using h5, h6⟩
      · rw [hres] at h2
        exact ⟨[.run], ls, es, _, r, rfl, .ends hres, rfl, by simp [done, cur, tally], h2⟩
    | poke =>
      obtain rfl := step_poke h1
      obtain ⟨ms, ls', es', x', r, rfl, h3, h4, h5, h6⟩ := ih h2 hp
      exact ⟨.poke :: ms, ls', es', x', r, rfl, .poked h3, h4,
        by simpa [done, cur, tally] using h5, h6⟩

/-- A run that starts with a call and ends outside an operation: first a whole operation. -/
theorem exec_call {ls} (h : (C.lts I).exec (.call o :: ls) x = some y)
    (hy : ∀ o p, y.place ≠ .busy o p) :
    ∃ ms ls' es x' r, ls = ms ++ ls' ∧ C.Whole o x.st ms es x'.st r ∧ x.place = .idle ∧
      x'.place = (if C.ends r then .gone else .idle) ∧
      done x'.log = done x.log ++ [(o, r, es)] ∧ (C.lts I).exec ls' x' = some y := by
  obtain ⟨x₁, h1, h2⟩ := Lts.exec_cons.mp h
  obtain ⟨hp, rfl⟩ := step_call h1
  rcases hent : C.enter o x.st with ⟨s₁, es, p | r⟩
  · rw [hent, after_inl] at h2
    obtain ⟨ms, ls', es', x', r, rfl, h3, h4, h5, h6⟩ := exec_busy h2 rfl hy
    exact ⟨ms, ls', es ++ es', x', r, rfl, .goes hent h3, hp, h4,
      by simpa [done, cur, tally] using h5, h6⟩
  · rw [hent] at h2
    exact ⟨[], ls, es, _, r, rfl, .ends hent, hp, rfl, by simp [done, tally], h2⟩

/-! ## Operations whose later sections commute with the pokes -/

/-- At each of its places that meet `P`, a section of `o` does the same before and after a poke,
and leaves the operation at such a place. -/
def Commutes (C : Code σ ω π ρ ε) (o : ω) (P : π → Prop) : Prop :=
  ∀ p s, P p → C.resume o p (C.poke s) = (C.poke (C.resume o p s).1, (C.resume o p s).2) ∧
    ∀ p', (C.resume o p s).2.2 = .inl p' → P p'

/-- A rest without pokes, from the state before a poke. -/
theorem Rest.unpoke {P : π → Prop} (hc : C.Commutes o P) {p s ms es s' r}
    (h : C.Rest o p (C.poke s) ms es s' r) (hp : P p) (hn : .poke ∉ ms) :
    ∃ s₁, C.Rest o p s ms es s₁ r ∧ C.poke s₁ = s' := by
  generalize ht : C.poke s = t at h
  induction h generalizing s with
  | @ends p t s' es r hres =>
    subst ht
    obtain ⟨he, -⟩ := hc p s hp
    rcases hs : C.resume o p s with ⟨s₁, es₁, out⟩
    rw [hres, hs] at he
    cases he
    exact ⟨s₁, .ends hs, rfl⟩
  | @goes p p' t t₁ s' ms es es' r hres hrest ih =>
    subst ht
    obtain ⟨he, hnext⟩ := hc p s hp
    rcases hs : C.resume o p s with ⟨s₁, es₁, out⟩
    rw [hres, hs] at he
    rw [hs] at hnext
    cases he
    obtain ⟨s₂, h1, h2⟩ := ih (hnext p' rfl) (fun hm => hn (List.mem_cons_of_mem _ hm)) rfl
    exact ⟨s₂, .goes hs h1, h2⟩
  | poked => exact absurd (List.mem_cons_self ..) hn

/-- The pokes of the rest of an operation can stand after it. -/
theorem Rest.pokes_after {P : π → Prop} (hc : C.Commutes o P) {p s ms es s' r}
    (h : C.Rest o p s ms es s' r) (hp : P p) :
    ∃ ms' s₁, .poke ∉ ms' ∧ C.Rest o p s ms' es s₁ r ∧ C.poke^[pokes ms] s₁ = s' := by
  induction h with
  | @ends p s s' es r hres => exact ⟨[.run], s', by simp, .ends hres, rfl⟩
  | @goes p p' s s₁ s' ms es es' r hres hrest ih =>
    obtain ⟨-, hnext⟩ := hc p s hp
    rw [hres] at hnext
    obtain ⟨ms', s₂, h1, h2, h3⟩ := ih (hnext p' rfl)
    exact ⟨.run :: ms', s₂, by simpa using h1, .goes hres h2, h3⟩
  | @poked p s s' ms es r hrest ih =>
    obtain ⟨ms', s₂, h1, h2, h3⟩ := ih hp
    obtain ⟨s₃, h4, h5⟩ := h2.unpoke hc hp h1
    refine ⟨ms', s₃, h1, h4, ?_⟩
    rw [← h3, ← h5, pokes_poke, Function.iterate_succ_apply]

/-- An operation whose later sections commute with the pokes is atomic. -/
theorem Commutes.atomic {P : π → Prop} {R : ω → ρ → List ε → List ε → Prop}
    (hc : C.Commutes o P) (hP : ∀ s p, (C.enter o s).2.2 = .inl p → P p)
    (hR : ∀ r es, R o r es es) : C.Atomic R o := by
  intro s ms es s' r h
  cases h with
  | ends hent => exact ⟨[], es, by simp, hR r es, .inl (.ends hent)⟩
  | @goes s₁ _ p _ es es' _ hent hrest =>
    have hp := hP s p (by rw [hent])
    obtain ⟨ms', s₂, h1, h2, h3⟩ := hrest.pokes_after hc hp
    exact ⟨ms', es ++ es', h1, hR r _, .inr ⟨s₂, .goes hent h2, h3⟩⟩

/-- The next section of the rest of an operation, after `k` pokes. -/
theorem Rest.section {p s ms es s' r} (h : C.Rest o p s ms es s' r) :
    ∃ k, (C.resume o p (C.poke^[k] s) = (s', es, .inr r) ∧ pokes ms = k) ∨
      ∃ s₁ es₁ p' ms₂ es₂, C.resume o p (C.poke^[k] s) = (s₁, es₁, .inl p') ∧
        C.Rest o p' s₁ ms₂ es₂ s' r ∧ es = es₁ ++ es₂ ∧ pokes ms = k + pokes ms₂ := by
  induction h with
  | ends hres => exact ⟨0, .inl ⟨hres, rfl⟩⟩
  | @goes p p' s s₁ s' ms es es' r hres hrest ih =>
    exact ⟨0, .inr ⟨s₁, es, p', ms, es', hres, hrest, rfl, by simp⟩⟩
  | poked hrest ih =>
    obtain ⟨k, ⟨h1, h2⟩ | ⟨s₁, es₁, p', ms₂, es₂, h1, h2, h3, h4⟩⟩ := ih
    · exact ⟨k + 1, .inl ⟨h1, by rw [pokes_poke, h2]⟩⟩
    · refine ⟨k + 1, .inr ⟨s₁, es₁, p', ms₂, es₂, h1, h2, h3, ?_⟩⟩
      rw [pokes_poke, h4]
      omega

/-! ## Linearization -/

/-- `k` pokes in a row. -/
theorem exec_pokes (k : Nat) :
    ∃ x', (C.lts I).exec (.replicate k .poke) x = some x' ∧ x'.st = C.poke^[k] x.st ∧
      x'.place = x.place ∧ done x'.log = done x.log := by
  induction k generalizing x with
  | zero => exact ⟨x, rfl, rfl, rfl, rfl⟩
  | succ k ih =>
    obtain ⟨x', h1, h2, h3, h4⟩ := ih (x := { x with st := C.poke x.st, log := x.log ++ [.poke] })
    exact ⟨x', Lts.exec_cons.mpr ⟨_, rfl, h1⟩, h2, h3, by simpa [done, cur, tally] using h4⟩

/-- The finished operations of two runs agree: the same operations with the same results, and `R`
between what they emitted. -/
def Agree (R : ω → ρ → List ε → List ε → Prop) :
    List (ω × ρ × List ε) → List (ω × ρ × List ε) → Prop :=
  List.Forall₂ fun a b => a.1 = b.1 ∧ a.2.1 = b.2.1 ∧ R a.1 a.2.1 a.2.2 b.2.2

theorem Agree.refl {R : ω → ρ → List ε → List ε → Prop} (h : ∀ o r es, R o r es es)
    (d : List (ω × ρ × List ε)) : Agree R d d := by
  induction d with
  | nil => exact .nil
  | cons a d ih => exact .cons ⟨rfl, rfl, h _ _ _⟩ ih

theorem Agree.snoc {R : ω → ρ → List ε → List ε → Prop} {d d' : List (ω × ρ × List ε)}
    {es' : List ε} (h : Agree R d d') (hr : R o r es es') :
    Agree R (d ++ [(o, r, es)]) (d' ++ [(o, r, es')]) :=
  List.rel_append h (.cons ⟨rfl, rfl, hr⟩ .nil)

/-- **Every run of atomic operations has a linearization** with the same final state, the same
place of the caller and the same results. The induction is on the number of moves: a run is a
poke and a run, or a whole operation and a run. -/
theorem linearize {R : ω → ρ → List ε → List ε → Prop} (hat : ∀ o, C.Atomic R o)
    (n : Nat) {ls : List (Move ω)} (hn : ls.length ≤ n) {z : St σ ω π ρ ε}
    (h : (C.lts I).exec ls x = some y) (hx : ∀ o p, x.place ≠ .busy o p)
    (hy : ∀ o p, y.place ≠ .busy o p) (hst : z.st = x.st) (hpl : z.place = x.place)
    (hd : Agree R (done x.log) (done z.log)) :
    ∃ ls' w, Lin ls ls' ∧ (C.lts I).exec ls' z = some w ∧ w.st = y.st ∧
      w.place = y.place ∧ Agree R (done y.log) (done w.log) := by
  induction n generalizing ls x z with
  | zero =>
    obtain rfl : ls = [] := List.length_eq_zero_iff.mp (by omega)
    cases h
    exact ⟨[], z, .nil, rfl, hst, hpl, hd⟩
  | succ n ih =>
    cases ls with
    | nil => cases h; exact ⟨[], z, .nil, rfl, hst, hpl, hd⟩
    | cons m ls =>
      cases m with
      | run =>
        obtain ⟨x₁, h1, -⟩ := Lts.exec_cons.mp h
        obtain ⟨o, p, hp, -⟩ := step_run h1
        exact absurd hp (hx _ _)
      | poke =>
        obtain ⟨x₁, h1, h2⟩ := Lts.exec_cons.mp h
        obtain rfl := step_poke h1
        obtain ⟨ls', w, h3, h4, h5⟩ := ih (Nat.le_of_succ_le_succ hn) h2 hx
          (z := { z with st := C.poke z.st, log := z.log ++ [.poke] }) (by simp [hst]) hpl
          (by simpa [done, tally] using hd)
        exact ⟨.poke :: ls', w, .poke h3, Lts.exec_cons.mpr ⟨_, rfl, h4⟩, h5⟩
      | call o =>
        obtain ⟨ms, ls₁, es, x', r, rfl, hw, hidle, hpl', hd', hrest⟩ := exec_call h hy
        have hlen : ls₁.length ≤ n := by simp at hn; omega
        have hx' : ∀ o p, x'.place ≠ .busy o p := by rw [hpl']; intros; split <;> simp
        obtain ⟨ms', es', hnp, hR, hcase⟩ := hat o _ _ _ _ _ hw
        obtain ⟨hlast, hmoves⟩ := hw.moves
        -- The pokes stand before the operation, or after it; in both cases the rest of the run
        -- starts from the state that the run itself has there.
        rcases hcase with hbef | ⟨s₁, haft, hs₁⟩
        · obtain ⟨xp, he, hxs, hxp, hxd⟩ :=
            exec_pokes (C := C) (I := I) (x := z) (pokes ms)
          obtain ⟨xo, ho, hos, hop, hod⟩ := hbef.exec (I := I) (x := xp)
            (by rw [hxp, hpl, hidle]) (by rw [hxs, hst])
          obtain ⟨ls', w, h3, h4, h5⟩ := ih hlen hrest hx' (z := xo) hos (by rw [hop, hpl'])
            (by rw [hd', hod, hxd]; exact hd.snoc hR)
          refine ⟨_, w, .before hlast hmoves (fun m hm => ?_) h3,
            Lts.exec_append.mpr ⟨xo, Lts.exec_append.mpr ⟨xp, he, ho⟩, h4⟩, h5⟩
          rcases hbef.moves.2 m hm with e | e
          · exact e
          · subst e; exact absurd hm hnp
        · obtain ⟨xo, ho, hos, hop, hod⟩ := haft.exec (I := I) (x := z) (by rw [hpl, hidle]) hst
          obtain ⟨xp, he, hxs, hxp, hxd⟩ := exec_pokes (C := C) (I := I) (x := xo) (pokes ms)
          obtain ⟨ls', w, h3, h4, h5⟩ := ih hlen hrest hx' (z := xp)
            (by rw [hxs, hos, hs₁]) (by rw [hxp, hop, hpl'])
            (by rw [hd', hxd, hod]; exact hd.snoc hR)
          refine ⟨_, w, .after hlast hmoves (fun m hm => ?_) h3,
            Lts.exec_append.mpr ⟨xp, Lts.exec_append.mpr ⟨xo, ho, he⟩, h4⟩, h5⟩
          rcases haft.moves.2 m hm with e | e
          · exact e
          · subst e; exact absurd hm hnp

end Code

end Lib
