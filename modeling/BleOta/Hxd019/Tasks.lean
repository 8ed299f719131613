import BleOta.Hxd019.Cache
import BleOta.Lib.Tasks

/-!
# Calls of several tasks

The atomic steps of a call: the base state is read (by `hxd019_ac_temp` and `hxd019_ac_temp_step`
once before), the code group is read while the frame is built, the frame is sent, the state is
cached. `hxd019_bind_group` is one step. Only the transmission is under the mutex.

* `Pc`: the places of a call, with its local variables and what it has read.
* `resume`: the next step of a call; `tasks`: the calls of any number of tasks.
* `Undisturbed`: the steps at which no other call has come between.
-/

namespace BleOta.Hxd019

/-- The places of a call. `first` is the base state that `hxd019_ac_temp` and
`hxd019_ac_temp_step` read, `base` the one that `send_state_with_key` read, `group` the code group
in the frame, `checked` the one that `hxd019_ac_simple` compared with 0. -/
inductive Pc where
  | enter
  | asked (first : AcState) (key : UInt8) (mutate : Option Mutate)
  | based (first : Option AcState) (base st : AcState)
  | built (first : Option AcState) (base : AcState) (group : UInt16) (st : AcState) (f : Frame)
  | sent (st : AcState)
  | bound (checked : UInt16)
  | simple (checked group : UInt16) (f : Frame)
  deriving DecidableEq, Repr

/-- The functions that read the base state before `send_state_with_key` does. -/
def Call.readsFirst : Call → Bool
  | .acTemp _ | .acTempStep _ => true
  | _ => false

/-- The first step of a call. -/
def Call.first (fmt : Format) (c : Call) (d : Driver) : Driver × (Pc ⊕ Except Err Unit) :=
  match c with
  | .bindGroup codeGroup => match Hxd019.bindGroup d codeGroup with
    | (r, d) => (d, .inr r)
  | .acSimple _ =>
    if d.sess.codeGroup = 0 then (d, .inr (.error .noent)) else (d, .inl (.bound d.sess.codeGroup))
  | c =>
    let base := d.sess.baseState
    match c.request fmt base with
    | none => (d, .inr (.error .key7))
    | some (key, mutate) =>
      if c.readsFirst then (d, .inl (.asked base key mutate))
      else (d, .inl (.based none base (keyedState key mutate base)))

/-- The next step of a call; `tx` is the outcome of its transmission. -/
def resume (fmt : Format) (o : Call × Tx) : Pc → Driver → Driver × (Pc ⊕ Except Err Unit)
  | .enter, d => o.1.first fmt d
  | .asked first key mutate, d =>
    let base := d.sess.baseState
    (d, .inl (.based (some first) base (keyedState key mutate base)))
  | .based first base st, d => match buildAcState fmt d.sess.codeGroup st with
    | .error e => (d, .inr (.error e))
    | .ok f => (d, .inl (.built first base d.sess.codeGroup st f))
  | .built _ _ _ st f, d => match sendFrame o.2 f d with
    | (.error e, d) => (d, .inr (.error e))
    | (.ok (), d) => (d, .inl (.sent st))
  | .sent st, d => ({ d with sess := d.sess.commit st }, .inr (.ok ()))
  | .bound checked, d => match o.1 with
    | .acSimple funcCode =>
      let group := d.sess.codeGroup
      (d, .inl (.simple checked group (buildAcSimple group funcCode)))
    | _ => (d, .inr (.ok ()))
  | .simple _ _ f, d => match sendFrame o.2 f d with
    | (r, d) => (d, .inr r)

/-- The calls in steps; a call comes with the outcome of its transmission. -/
def tasks (fmt : Format) : Lib.Tasks Driver (Call × Tx) Pc (Except Err Unit) :=
  ⟨fun _ => .enter, resume fmt⟩

/-- A call in one piece. -/
def runCall (fmt : Format) (o : Call × Tx) (d : Driver) : Driver := (o.1.run fmt o.2 d).2

variable {τ : Type} [DecidableEq τ]

/-- The calls of several tasks, after any calls of one task. -/
def system (fmt : Format) :
    Lib.Lts (Lib.Tasks.St τ Driver (Call × Tx) Pc) (Lib.Tasks.Move τ (Call × Tx)) :=
  (tasks fmt).lts (api fmt).Reach

/-- No call is between its transmission and its commit. -/
def NoneSent (x : Lib.Tasks.St τ Driver (Call × Tx) Pc) : Prop :=
  ∀ t o st, x.place t ≠ some (o, .sent st)

/-- At a transmission that succeeds, all that the call has read is what the session has now; and
at it, or at a bind, no call is between its transmission and its commit. -/
def Undisturbed (x : Lib.Tasks.St τ Driver (Call × Tx) Pc) :
    Lib.Tasks.Move τ (Call × Tx) → Prop
  | .call .. => True
  | .step t => match x.place t with
    | some (o, .enter) => (∃ codeGroup, o.1 = .bindGroup codeGroup) → NoneSent x
    | some (o, .built first base group _ f) => x.st.txError o.2 f = false →
        (∀ b ∈ first, b = x.st.sess.baseState) ∧ base = x.st.sess.baseState ∧
          group = x.st.sess.codeGroup ∧ NoneSent x
    | some (o, .simple checked group f) => x.st.txError o.2 f = false →
        checked = x.st.sess.codeGroup ∧ group = x.st.sess.codeGroup ∧ NoneSent x
    | _ => True

end BleOta.Hxd019
