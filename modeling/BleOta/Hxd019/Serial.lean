import BleOta.Hxd019.Requests
import BleOta.Hxd019.Tasks

/-!
# When the calls of several tasks are serial

A call takes its place in the history when it is certain to fail, or at its last step.

* `Inv`: the driver is the one after the history, with at most one call between its transmission
  and its commit.
* `calls_serial`: in a run whose steps are `Undisturbed`, the driver is the one of a history.
* `lost_update`: without that an update can be lost.
-/

namespace BleOta.Hxd019

variable {fmt : Format} {tx : Tx} {c : Call} {d : Driver}

/-! ## The invariant -/

/-- The local variables of a call. -/
def PcOk (fmt : Format) (c : Call) : Pc → Prop
  | .enter => True
  | .asked first key mutate => c.SendsState = true ∧ c.request fmt first = some (key, mutate)
  | .based first base st => c.SendsState = true ∧ ∃ key mutate,
      c.request fmt (first.getD base) = some (key, mutate) ∧ st = keyedState key mutate base
  | .built first base group st f => c.SendsState = true ∧ ∃ key mutate,
      c.request fmt (first.getD base) = some (key, mutate) ∧ st = keyedState key mutate base ∧
        Accepted fmt st ∧ f = stateFrame fmt group st
  | .sent st => Accepted fmt st
  | .bound checked => (∃ funcCode, c = .acSimple funcCode) ∧ checked ≠ 0
  | .simple checked group f => checked ≠ 0 ∧
      ∃ funcCode, c = .acSimple funcCode ∧ f = buildAcSimple group funcCode

/-- A call is certain to fail once it has the state that it will not get a frame for. -/
def placed (fmt : Format) (_ : Call × Tx) : Pc → Bool
  | .asked _ key mutate => !decide (Accepted fmt (keyedState key mutate acStateDefault))
  | .based _ _ st => !decide (Accepted fmt st)
  | _ => false

variable {τ : Type} {x : Lib.Tasks.St τ Driver (Call × Tx) Pc} {t : τ} {o : Call × Tx} {p p' : Pc}

/-- The driver is `d`, or a call has sent its frame and has still to cache its state. -/
def Pending (fmt : Format) (x : Lib.Tasks.St τ Driver (Call × Tx) Pc) (d : Driver) : Prop :=
  (NoneSent x ∧ x.st = d) ∨
  ∃ t o st f, x.place t = some (o, .sent st) ∧
    (∀ u o' st', x.place u = some (o', .sent st') → u = t) ∧
    x.st = { d with log := d.log ++ [.txFrame f] } ∧
    o.1.run fmt o.2 d =
      (.ok (), { d with sess := d.sess.commit st, log := d.log ++ [.txFrame f] })

/-- The system, and the driver `d` after the history. -/
structure Inv (fmt : Format) (x : Lib.Tasks.St τ Driver (Call × Tx) Pc) (d : Driver) : Prop where
  pending : Pending fmt x d
  places : ∀ t c tx p, x.place t = some ((c, tx), p) → PcOk fmt c p
  base : Accepted fmt x.st.sess.baseState

theorem Pending.sess (h : Pending fmt x d) :
    x.st.sess = d.sess ∧ x.st.txMutex = d.txMutex := by
  rcases h with ⟨-, h⟩ | ⟨t, o, st, f, -, -, h, -⟩
  · rw [h]
    exact ⟨rfl, rfl⟩
  · rw [h]
    exact ⟨rfl, rfl⟩

theorem Pending.none (h : Pending fmt x d) (hno : NoneSent x) : x.st = d := by
  rcases h with ⟨-, h⟩ | ⟨t, o, st, f, hpl, -⟩
  · exact h
  · exact absurd hpl (hno t o st)

theorem txError_sess {d d' : Driver} {f : Frame} (h : d.txMutex = d'.txMutex) :
    d.txError tx f = d'.txError tx f := by
  simp [Driver.txError, h]

variable [DecidableEq τ]

/-- The places after a move of the task `t`. -/
theorem place_of_update {place : Option ((Call × Tx) × Pc)} {u : τ} {e : (Call × Tx) × Pc}
    (h : Function.update x.place t place u = some e) :
    (u = t ∧ place = some e) ∨ (u ≠ t ∧ x.place u = some e) := by
  by_cases hut : u = t
  · rw [hut, Function.update_self] at h
    exact .inl ⟨hut, h⟩
  · rw [Function.update_of_ne hut] at h
    exact .inr ⟨hut, h⟩

omit [DecidableEq τ] in
theorem not_sent (hpl : x.place t = some (o, p)) (hp : ∀ st, p ≠ .sent st) :
    ∀ o st, x.place t ≠ some (o, .sent st) := by
  intro o st hx
  rw [hpl] at hx
  cases hx
  exact hp st rfl

/-- A call that goes on or ends without a change of the driver. -/
theorem Pending.update {place : Option ((Call × Tx) × Pc)} {done : List (τ × (Call × Tx))}
    (h : Pending fmt x d) (hns : ∀ o st, x.place t ≠ some (o, .sent st))
    (hns' : ∀ o st, place ≠ some (o, .sent st)) :
    Pending fmt ⟨x.st, Function.update x.place t place, done⟩ d := by
  have hback : ∀ u o st, Function.update x.place t place u = some (o, .sent st) →
      x.place u = some (o, .sent st) := by
    intro u o st hu
    rcases place_of_update hu with ⟨-, hx⟩ | ⟨-, hx⟩
    · exact absurd hx (hns' o st)
    · exact hx
  rcases h with ⟨hno, hst⟩ | ⟨u, o, st, f, hpl, huniq, hst, hrun⟩
  · exact .inl ⟨fun u o st hu => hno u o st (hback u o st hu), hst⟩
  · refine .inr ⟨u, o, st, f, ?_, fun v o' st' hv => huniq v o' st' (hback v o' st' hv), hst, hrun⟩
    have hut : u ≠ t := by
      rintro rfl
      exact hns o st hpl
    dsimp only
    rwa [Function.update_of_ne hut]

theorem NoneSent.ends {s : Driver} (h : ∀ u o st, x.place u = some (o, .sent st) → u = t) :
    NoneSent (x.ends t o s) := by
  intro u o' st hu
  rcases place_of_update hu with ⟨-, hx⟩ | ⟨hut, hx⟩
  · cases hx
  · exact hut (h u o' st hx)

theorem Inv.places_update {place : Option ((Call × Tx) × Pc)} (h : Inv fmt x d)
    (hok : ∀ o p, place = some (o, p) → PcOk fmt o.1 p) :
    ∀ u c tx p, Function.update x.place t place u = some ((c, tx), p) → PcOk fmt c p := by
  intro u c tx p hu
  rcases place_of_update hu with ⟨-, hx⟩ | ⟨-, hx⟩
  · exact hok (c, tx) p hx
  · exact h.places u c tx p hx

theorem Inv.places_goes (h : Inv fmt x d) (hok : PcOk fmt o.1 p') :
    ∀ u c tx p, Function.update x.place t (some (o, p')) u = some ((c, tx), p) →
      PcOk fmt c p := by
  apply h.places_update
  intro o p hx
  cases hx
  exact hok

theorem Inv.places_ends (h : Inv fmt x d) :
    ∀ u c tx p, Function.update x.place t none u = some ((c, tx), p) → PcOk fmt c p := by
  apply h.places_update
  intro o p hx
  cases hx

/-- A step that changes no more than the local variables of the call. -/
theorem Inv.goes (h : Inv fmt x d) (hns : ∀ o st, x.place t ≠ some (o, .sent st))
    (hok : PcOk fmt o.1 p') (hp' : ∀ st, p' ≠ .sent st) : Inv fmt (x.goes t o p' x.st) d :=
  ⟨h.pending.update hns fun o' st hx => hp' st (by cases hx; rfl), h.places_goes hok, h.base⟩

/-- A last step without a change of the driver. -/
theorem Inv.ends (h : Inv fmt x d) (hns : ∀ o st, x.place t ≠ some (o, .sent st)) :
    Inv fmt (x.ends t o x.st) d :=
  ⟨h.pending.update hns nofun, h.places_ends, h.base⟩

/-! ## The steps of a call -/

/-- The first step of a convenience function. -/
theorem Call.first_sendsState (hc : c.SendsState = true) : c.first fmt d =
    match c.request fmt d.sess.baseState with
    | none => (d, .inr (.error .key7))
    | some (key, mutate) =>
      if c.readsFirst then (d, .inl (.asked d.sess.baseState key mutate))
      else (d, .inl (.based none d.sess.baseState
        (keyedState key mutate d.sess.baseState))) := by
  cases c with
  | bindGroup | acSimple => cases hc
  | _ => rfl

/-- The first step, if the call goes on. -/
theorem Inv.first_goes {s' : Driver} (h : Inv fmt x d) (hpl : x.place t = some (o, .enter))
    (hres : o.1.first fmt x.st = (s', .inl p')) :
    (placed fmt o p' = false ∧ Inv fmt (x.goes t o p' s') d) ∨
    (placed fmt o p' = true ∧ Inv fmt (x.goes t o p' s') (runCall fmt o d)) := by
  have hns : ∀ o st, x.place t ≠ some (o, .sent st) := not_sent hpl nofun
  obtain ⟨c, tx⟩ := o
  cases c using Call.casesSends with
  | bindGroup codeGroup => cases hres
  | acSimple funcCode =>
    simp only [Call.first] at hres
    split at hres
    · cases hres
    next hg =>
      cases hres
      exact .inl ⟨rfl, h.goes hns ⟨⟨funcCode, rfl⟩, hg⟩ nofun⟩
  | sendsState c hc =>
    rw [Call.first_sendsState hc] at hres
    cases hreq : c.request fmt x.st.sess.baseState with
    | none =>
      rw [hreq] at hres
      cases hres
    | some req =>
      obtain ⟨key, mutate⟩ := req
      rw [hreq] at hres
      have hrun (hno : ¬Accepted fmt (keyedState key mutate x.st.sess.baseState)) :
          runCall fmt (c, tx) d = d := by
        rw [h.pending.sess.1] at hreq hno
        exact run_rejected hc hreq hno
      dsimp only at hres
      by_cases hfirst : c.readsFirst = true
      · rw [if_pos hfirst] at hres
        cases hres
        have hI : Inv fmt (x.goes t (c, tx) (.asked x.st.sess.baseState key mutate) x.st) d :=
          h.goes hns ⟨hc, hreq⟩ nofun
        by_cases hacc : Accepted fmt (keyedState key mutate acStateDefault)
        · exact .inl ⟨by simp [placed, hacc], hI⟩
        · have hno : ¬Accepted fmt (keyedState key mutate x.st.sess.baseState) :=
            fun hx => hacc (accepted_indep h.base acStateDefault_accepted hx)
          exact .inr ⟨by simp [placed, hacc], (hrun hno).symm ▸ hI⟩
      · rw [if_neg hfirst] at hres
        cases hres
        have hI : Inv fmt (x.goes t (c, tx) (.based none x.st.sess.baseState
            (keyedState key mutate x.st.sess.baseState)) x.st) d :=
          h.goes hns ⟨hc, key, mutate, hreq, rfl⟩ nofun
        by_cases hacc : Accepted fmt (keyedState key mutate x.st.sess.baseState)
        · exact .inl ⟨by simp [placed, hacc], hI⟩
        · exact .inr ⟨by simp [placed, hacc], (hrun hacc).symm ▸ hI⟩

theorem bindGroup_accepted {codeGroup : UInt16} (h : Accepted fmt d.sess.baseState) :
    Accepted fmt (bindGroup d codeGroup).2.sess.baseState := by
  unfold bindGroup
  split
  · exact h
  · exact acStateDefault_accepted

/-- The first step, if it is the last one. -/
theorem Inv.first_ends {s' : Driver} {r : Except Err Unit} (h : Inv fmt x d)
    (hpl : x.place t = some (o, .enter)) (hC : Undisturbed x (.step t))
    (hres : o.1.first fmt x.st = (s', .inr r)) :
    Inv fmt (x.ends t o s') (runCall fmt o d) := by
  have hns : ∀ o st, x.place t ≠ some (o, .sent st) := not_sent hpl nofun
  obtain ⟨c, tx⟩ := o
  cases c using Call.casesSends with
  | bindGroup codeGroup =>
    unfold Undisturbed at hC
    dsimp only at hC
    rw [hpl] at hC
    have hnow := hC ⟨codeGroup, rfl⟩
    have hst : x.st = d := h.pending.none hnow
    cases hres
    subst hst
    have hno := NoneSent.ends (o := (.bindGroup codeGroup, tx)) (t := t)
      (s := (bindGroup x.st codeGroup).2) fun u o st hu => absurd hu (hnow u o st)
    exact ⟨.inl ⟨hno, rfl⟩, h.places_ends, bindGroup_accepted h.base⟩
  | acSimple funcCode =>
    simp only [Call.first] at hres
    split at hres
    next hg =>
      cases hres
      have hrun : runCall fmt (.acSimple funcCode, tx) d = d := by
        rw [h.pending.sess.1] at hg
        simp [runCall, Call.run, acSimple, hg]
      rw [hrun]
      exact h.ends hns
    · cases hres
  | sendsState c hc =>
    rw [Call.first_sendsState hc] at hres
    cases hreq : c.request fmt x.st.sess.baseState with
    | none =>
      rw [hreq] at hres
      cases hres
      rw [h.pending.sess.1] at hreq
      have hrun : runCall fmt (c, tx) d = d := run_key7 hc hreq
      rw [hrun]
      exact h.ends hns
    | some req =>
      rw [hreq] at hres
      dsimp only at hres
      split at hres <;> cases hres

/-- The transmission of a full state. -/
theorem Inv.transmit {first : Option AcState} {base : AcState} {group : UInt16} {f : Frame}
    {s' : Driver} (h : Inv fmt x d)
    (hpl : x.place t = some (o, .built first base group st f)) (hC : Undisturbed x (.step t))
    (hres : sendFrame o.2 f x.st = (.ok (), s')) :
    Inv fmt (x.goes t o (.sent st) s') d := by
  obtain ⟨c, tx⟩ := o
  obtain ⟨hc, key, mutate, hreq, hst, hacc, hf⟩ := h.places t c tx _ hpl
  have herr : x.st.txError tx f = false := by
    by_contra hx
    rw [sendFrame_of_txError (by simpa using hx)] at hres
    cases hres
  rw [sendFrame_of_not_txError herr] at hres
  cases hres
  unfold Undisturbed at hC
  dsimp only at hC
  rw [hpl] at hC
  obtain ⟨hfirst, hbase, hgroup, hno⟩ := hC herr
  have hd : x.st = d := h.pending.none hno
  have hget : first.getD base = x.st.sess.baseState := by
    cases first with
    | none => exact hbase
    | some b => exact hfirst b rfl
  rw [hget] at hreq
  subst hf
  rw [hgroup] at herr
  have hrun := run_accepted hc hreq (hbase ▸ hst) hacc herr
  subst hd
  refine ⟨.inr ⟨t, (c, tx), st, _, Function.update_self .., ?_, by rw [hgroup]; rfl, hrun⟩,
    h.places_goes (o := (c, tx)) hacc, h.base⟩
  intro u o' st' hu
  by_contra hut
  simp only [Lib.Tasks.St.goes, Function.update_of_ne hut] at hu
  exact hno u o' st' hu

/-- The commit of a state. -/
theorem Inv.commit (h : Inv fmt x d) (hpl : x.place t = some (o, .sent st)) :
    Inv fmt (x.ends t o { x.st with sess := x.st.sess.commit st }) (runCall fmt o d) := by
  have hacc : Accepted fmt st := h.places t o.1 o.2 _ hpl
  rcases h.pending with ⟨hno, -⟩ | ⟨u, o', st', f, hpl', huniq, hst, hrun⟩
  · exact absurd hpl (hno t o st)
  · obtain rfl := huniq t o st hpl
    rw [hpl] at hpl'
    cases hpl'
    refine ⟨.inl ⟨NoneSent.ends huniq, ?_⟩, h.places_ends, hacc⟩
    unfold runCall
    rw [hrun]
    simp only [Lib.Tasks.St.ends, hst]

/-- The transmission of a simple frame. -/
theorem Inv.transmit_simple {checked group : UInt16} {f : Frame} (h : Inv fmt x d)
    (hpl : x.place t = some (o, .simple checked group f)) (hC : Undisturbed x (.step t)) :
    Inv fmt (x.ends t o (sendFrame o.2 f x.st).2) (runCall fmt o d) := by
  obtain ⟨c, tx⟩ := o
  obtain ⟨hne, funcCode, rfl, hf⟩ := h.places t c tx _ hpl
  have hns : ∀ o st, x.place t ≠ some (o, .sent st) := not_sent hpl nofun
  cases herr : x.st.txError tx f with
  | true =>
    have hrun : runCall fmt (.acSimple funcCode, tx) d = d := by
      have herr' : d.txError tx (buildAcSimple d.sess.codeGroup funcCode) = true := by
        rw [← herr, txError_sess h.pending.sess.2, hf]
        exact txError_congr rfl
      simp only [runCall, Call.run, acSimple]
      split
      · rfl
      · rw [sendFrame_of_txError herr']
    rw [hrun, sendFrame_of_txError herr]
    exact h.ends hns
  | false =>
    unfold Undisturbed at hC
    dsimp only at hC
    rw [hpl] at hC
    obtain ⟨hchecked, hgroup, hno⟩ := hC herr
    have hd : x.st = d := h.pending.none hno
    subst hd
    have hrun : runCall fmt (.acSimple funcCode, tx) x.st = (sendFrame tx f x.st).2 := by
      simp only [runCall, Call.run, acSimple]
      rw [if_neg (hchecked ▸ hne), hf, hgroup]
    rw [hrun]
    refine ⟨.inl ⟨NoneSent.ends fun u o st hu => absurd hu (hno u o st), rfl⟩, h.places_ends, ?_⟩
    rw [sendFrame_of_not_txError herr]
    exact h.base

/-! ## Histories -/

/-- A step after which the call goes on. -/
theorem Inv.step_goes {s' : Driver} (h : Inv fmt x d) (hpl : x.place t = some (o, p))
    (hC : Undisturbed x (.step t)) (hres : resume fmt o p x.st = (s', .inl p')) :
    (placed fmt o p' = placed fmt o p ∧ Inv fmt (x.goes t o p' s') d) ∨
    (placed fmt o p = false ∧ placed fmt o p' = true ∧
      Inv fmt (x.goes t o p' s') (runCall fmt o d)) := by
  have hok : PcOk fmt o.1 p := h.places t o.1 o.2 p hpl
  cases p with
  | enter =>
    rcases h.first_goes hpl hres with ⟨hp, hI⟩ | ⟨hp, hI⟩
    · exact .inl ⟨hp, hI⟩
    · exact .inr ⟨rfl, hp, hI⟩
  | asked first key mutate =>
    obtain ⟨hc, hreq⟩ := hok
    cases hres
    refine .inl ⟨?_, h.goes (not_sent hpl nofun) ⟨hc, key, mutate, hreq, rfl⟩ nofun⟩
    have hiff : Accepted fmt (keyedState key mutate x.st.sess.baseState) ↔
        Accepted fmt (keyedState key mutate acStateDefault) :=
      ⟨accepted_indep h.base acStateDefault_accepted,
        accepted_indep acStateDefault_accepted h.base⟩
    simp [placed, hiff]
  | based first base st =>
    obtain ⟨hc, key, mutate, hreq, hst⟩ := hok
    simp only [resume] at hres
    split at hres
    · cases hres
    next f hb =>
      cases hres
      obtain ⟨hacc, hf⟩ := buildAcState_eq_ok.mp hb
      refine .inl ⟨by simp [placed, hacc], ?_⟩
      exact h.goes (not_sent hpl nofun) ⟨hc, key, mutate, hreq, hst, hacc, hf⟩ nofun
  | built first base group st f =>
    simp only [resume] at hres
    split at hres
    · cases hres
    next hs =>
      cases hres
      exact .inl ⟨rfl, h.transmit hpl hC hs⟩
  | sent st => cases hres
  | bound checked =>
    obtain ⟨⟨funcCode, hc⟩, hne⟩ := hok
    obtain ⟨c, tx⟩ := o
    cases hc
    cases hres
    exact .inl ⟨rfl, h.goes (not_sent hpl nofun) ⟨hne, funcCode, rfl, rfl⟩ nofun⟩
  | simple checked group f => cases hres

/-- A last step. -/
theorem Inv.step_ends {s' : Driver} {r : Except Err Unit} (h : Inv fmt x d)
    (hpl : x.place t = some (o, p)) (hC : Undisturbed x (.step t))
    (hres : resume fmt o p x.st = (s', .inr r)) :
    (placed fmt o p = true ∧ Inv fmt (x.ends t o s') d) ∨
    (placed fmt o p = false ∧ Inv fmt (x.ends t o s') (runCall fmt o d)) := by
  have hok : PcOk fmt o.1 p := h.places t o.1 o.2 p hpl
  cases p with
  | enter => exact .inr ⟨rfl, h.first_ends hpl hC hres⟩
  | asked first key mutate => cases hres
  | based first base st =>
    simp only [resume] at hres
    split at hres
    next e hb =>
      cases hres
      have hno : ¬Accepted fmt st := by
        intro hacc
        rw [buildAcState_eq_ok.mpr ⟨hacc, rfl⟩] at hb
        cases hb
      exact .inl ⟨by simp [placed, hno], h.ends (not_sent hpl nofun)⟩
    · cases hres
  | built first base group st f =>
    obtain ⟨hc, -, -, -, -, -, hf⟩ := hok
    simp only [resume] at hres
    split at hres
    next e s₁ hs =>
      have herr : x.st.txError o.2 f = true := by
        by_contra hx
        rw [sendFrame_of_not_txError (by simpa using hx)] at hs
        cases hs
      rw [sendFrame_of_txError herr] at hs
      cases hs
      cases hres
      rw [txError_sess h.pending.sess.2] at herr
      have hrun : runCall fmt o d = d :=
        run_txError hc (hf ▸ stateFrame_length) herr
      exact .inr ⟨rfl, hrun.symm ▸ h.ends (not_sent hpl nofun)⟩
    · cases hres
  | sent st =>
    cases hres
    exact .inr ⟨rfl, h.commit hpl⟩
  | bound checked =>
    obtain ⟨⟨funcCode, hc⟩, -⟩ := hok
    obtain ⟨c, tx⟩ := o
    cases hc
    cases hres
  | simple checked group f =>
    have hI := h.transmit_simple hpl hC
    cases hres
    exact .inr ⟨rfl, hI⟩

theorem points : (tasks fmt).Points Undisturbed (runCall fmt) (Inv (τ := τ) fmt) (placed fmt) where
  call := by
    intro x d t o h hpl
    refine ⟨rfl, h.goes (fun o st hx => ?_) trivial nofun⟩
    rw [hpl] at hx
    cases hx
  goes := fun _ _ _ _ _ _ _ h hpl hC hres => h.step_goes hpl hC hres
  ends := fun _ _ _ _ _ _ _ h hpl hC hres => h.step_ends hpl hC hres

/-- **Calls of several tasks are serial** in every run whose steps are `Undisturbed`: when all calls
have ended, the frames, the binds and the session are those of a history in which the same calls
run in one piece each, in the order of each task. -/
theorem calls_serial {x₀ x : Lib.Tasks.St τ Driver (Call × Tx) Pc} (h0 : (system fmt).init x₀)
    (hr : (system fmt).Run Undisturbed x₀ x) (hidle : ∀ t, x.place t = none) :
    ∃ h : List (τ × (Call × Tx)), (∀ t, Lib.ofTask t h = Lib.ofTask t x.done) ∧
      x.st = Lib.serial (runCall fmt) h x₀.st := by
  have hns : NoneSent x₀ := by
    intro t o st hx
    rw [h0.2.1 t] at hx
    cases hx
  have hI : Inv fmt x₀ x₀.st := by
    refine ⟨.inl ⟨hns, rfl⟩, fun t c tx p hx => ?_, (Cached.reach h0.1).baseState⟩
    rw [h0.2.1 t] at hx
    cases hx
  obtain ⟨h, hI, hin⟩ := points.exists_history h0 hI hr
  refine ⟨h, fun t => ?_, hI.pending.none fun t o st hx => ?_⟩
  · have ht := hin t
    rw [hidle] at ht
    simpa [Lib.Tasks.slot] using ht
  · rw [hidle] at hx
    cases hx

/-- Two tasks after `hxd019_init`. -/
def twoTasks : Lib.Tasks.St Bool Driver (Call × Tx) Pc := ⟨⟨true, .init, []⟩, fun _ => none, []⟩

theorem twoTasks_init : (system .key7).init twoTasks := ⟨.init ⟨true, rfl⟩, fun _ => rfl, rfl⟩

/-- A call whose transmission succeeds. -/
def sends (c : Call) : Call × Tx := (c, ⟨true, 16⟩)

/-- One task turns the air conditioner on, then the other one sets the fan. -/
def inTurn : List (Lib.Tasks.Move Bool (Call × Tx)) :=
  [.call false (sends (.acPower true)), .call true (sends (.acFan 4)), .step false, .step false,
    .step false, .step false, .step true, .step true, .step true, .step true]

theorem calls_serial_inTurn : ∃ h : List (Bool × (Call × Tx)),
    (∀ t, Lib.ofTask t h = Lib.ofTask t ((system .key7).run inTurn twoTasks).done) ∧
      ((system .key7).run inTurn twoTasks).st =
        Lib.serial (runCall .key7) h ⟨true, .init, []⟩ := by
  have hno (x : Lib.Tasks.St Bool Driver (Call × Tx) Pc)
      (h : ∀ t, (x.place t).any (fun e => e.2 matches .sent _) = false) : NoneSent x := by
    intro t o st hx
    have ht := h t
    rw [hx] at ht
    cases ht
  have hm : (system .key7).Meets Undisturbed inTurn twoTasks := by
    refine ⟨trivial, _, rfl, trivial, _, rfl, nofun, _, rfl, trivial, _, rfl, ?_, _, rfl, trivial,
      _, rfl, nofun, _, rfl, trivial, _, rfl, ?_, _, rfl, trivial, _, rfl, trivial⟩
    · refine fun _ => ⟨?_, rfl, rfl, hno _ fun t => by cases t <;> decide +kernel⟩
      intro b hb
      cases hb
    · refine fun _ => ⟨?_, rfl, rfl, hno _ fun t => by cases t <;> decide +kernel⟩
      intro b hb
      cases hb
  have hexec : (system .key7).exec inTurn twoTasks =
      some ((system .key7).run inTurn twoTasks) := rfl
  refine calls_serial twoTasks_init (Lib.Lts.exec_run hm hexec) fun t => ?_
  cases t <;> rfl

/-- One task reads the base state, the other one sets the fan, and the first one goes on. -/
def overlapped : List (Lib.Tasks.Move Bool (Call × Tx)) :=
  [.call false (sends (.acPower true)), .step false, .call true (sends (.acFan 4)), .step true,
    .step true, .step true, .step true, .step false, .step false, .step false]

theorem lost_update :
    ¬∀ (ls : List (Lib.Tasks.Move Bool (Call × Tx))) (x : Lib.Tasks.St Bool Driver (Call × Tx) Pc),
      (system .key7).exec ls twoTasks = some x → (∀ t, x.place t = none) →
        ∃ h : List (Bool × (Call × Tx)), (∀ t, Lib.ofTask t h = Lib.ofTask t x.done) ∧
          x.st = Lib.serial (runCall .key7) h twoTasks.st := by
  intro hall
  have hexec : (system .key7).exec overlapped twoTasks =
      some ((system .key7).run overlapped twoTasks) := rfl
  obtain ⟨h, horder, hst⟩ := hall overlapped _ hexec (fun t => by cases t <;> rfl)
  have hf : Lib.ofTask false h = [sends (.acPower true)] := horder false
  have ht : Lib.ofTask true h = [sends (.acFan 4)] := horder true
  have hh : h = [(false, sends (.acPower true)), (true, sends (.acFan 4))] ∨
      h = [(true, sends (.acFan 4)), (false, sends (.acPower true))] := by
    clear hst horder hexec hall
    rcases h with _ | ⟨⟨t₁, o₁⟩, _ | ⟨⟨t₂, o₂⟩, _ | ⟨⟨t₃, o₃⟩, h⟩⟩⟩
    · cases hf
    · cases t₁ <;> simp [Lib.ofTask] at hf ht
    · cases t₁ <;> cases t₂ <;> simp_all [Lib.ofTask]
    · cases t₁ <;> cases t₂ <;> cases t₃ <;> simp [Lib.ofTask] at hf ht
  have hfan : (Lib.serial (runCall .key7) h twoTasks.st).sess.lastState.fan = 4 := by
    rcases hh with rfl | rfl <;> rfl
  rw [← hst] at hfan
  revert hfan
  decide +kernel

end BleOta.Hxd019
