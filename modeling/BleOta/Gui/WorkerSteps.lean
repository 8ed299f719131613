import BleOta.Gui.Worker

/-!
# What a step of the worker does

* `Stage`: a coroutine is active until it pushes the event that clears `_busy`; it lingers from
  then until it returns.
* `Announces`: the stages before and after a step and the events between them; a coroutine pushes
  one event that clears `_busy`, an early one if it goes on after it.
* `OpFlash.Moves`: what a step of `op_flash` does, branch by branch (`OpFlash.step_moves`).
* `Task.Steps`: what a step of any coroutine can be (`Task.Steps.announces`).
* `OtaGui.Steps`: what a step of the system can be, whatever its label.
* `flashing_reach`: each flash of the system is a run of `opFlash`.
-/

namespace BleOta.Gui

open Host

/-! ## Stages -/

inductive Stage where
  | active
  | lingering
  | returned
  deriving DecidableEq

def FlashPc.stage : FlashPc → Stage
  | .polling _ | .closing none => .lingering
  | .returned => .returned
  | _ => .active

def Task.stage (t : Task) : Stage :=
  match t.pc with
  | .flashing _ _ _ s => s.pc.stage
  | .returned => .returned
  | _ => .active

/-- The events that clear `_busy` and that `op_flash` pushes before its last `await`. -/
def Push.early : Push → Bool
  | .done .. | .fail .ackTimeout | .stopped => true
  | _ => false

def Event.early : Event → Bool
  | .flash p => p.early
  | _ => false

/-- The events between two stages of a coroutine, and which of them clear `_busy`. -/
inductive Announces : Stage → List Event → Stage → Prop
  | quiet {stage : Stage} {new : List Event} : new.filter Event.ends = [] →
      Announces stage new stage
  | leave {new : List Event} : new.filter Event.ends = [] → Announces .lingering new .returned
  | early {e : Event} {new : List Event} : new.filter Event.ends = [e] → e.early = true →
      Announces .active new .lingering
  | final {e : Event} {new : List Event} : new.filter Event.ends = [e] → e.early = false →
      Announces .active new .returned

/-- Only the events that clear `_busy` matter. -/
theorem Announces.congr {a b : Stage} {new new' : List Event}
    (hfilter : new'.filter Event.ends = new.filter Event.ends) (h : Announces a new b) :
    Announces a new' b := by
  cases h with
  | quiet h => exact .quiet (hfilter.trans h)
  | leave h => exact .leave (hfilter.trans h)
  | early h hearly => exact .early (hfilter.trans h) hearly
  | final h hearly => exact .final (hfilter.trans h) hearly

/-! ## Steps of `op_flash` -/

namespace OpFlash

/-- From `s` to `s'` with the events `new`. -/
structure Moves (s : OpFlash) (new : List Push) (s' : OpFlash) : Prop where
  pushed : s'.pushed = s.pushed ++ new
  cancel : s'.cancel = s.cancel
  stage : Announces s.pc.stage (new.map .flash) s'.pc.stage
  cancelled : .cancelled ∈ new → s.cancel = true
  stopped : .stopped ∈ new → s.pc = .aborting
  aborting : s'.pc = .aborting → s.cancel = true

variable {fw : List UInt8} {mac : List Char} {dry : Bool} {s s' : OpFlash} {p : Push}
  {new : List Push} {pc : FlashPc}

theorem Moves.goto (hst : pc.stage = s.pc.stage) (hab : pc = .aborting → s.cancel = true) :
    Moves s [] (s.goto pc) where
  pushed := (List.append_nil _).symm
  cancel := rfl
  stage := by
    have hstage : (s.goto pc).pc.stage = s.pc.stage := hst
    rw [hstage]
    exact .quiet rfl
  cancelled h := nomatch h
  stopped h := nomatch h
  aborting := hab

theorem Moves.leave (hst : s.pc.stage = .lingering) : Moves s [] (s.goto .returned) where
  pushed := (List.append_nil _).symm
  cancel := rfl
  stage := by rw [hst]; exact .leave rfl
  cancelled h := nomatch h
  stopped h := nomatch h
  aborting h := nomatch h

/-- An event that does not clear `_busy`, before the rest of the step. -/
theorem Moves.push (hp : p.ends = false) (h : Moves (s.push p) new s') : Moves s (p :: new) s' where
  pushed := by rw [h.pushed]; simp [OpFlash.push]
  cancel := h.cancel
  stage := h.stage.congr (by simp [Event.ends, hp])
  cancelled hm := by
    rcases List.mem_cons.mp hm with rfl | hm
    · cases hp
    · exact h.cancelled hm
  stopped hm := by
    rcases List.mem_cons.mp hm with rfl | hm
    · cases hp
    · exact h.stopped hm
  aborting := h.aborting

/-- An event that does not clear `_busy`, after the rest of the step. -/
theorem Moves.snoc (hp : p.ends = false) (h : Moves s new s') :
    Moves s (new ++ [p]) (s'.push p) where
  pushed := by simp [OpFlash.push, h.pushed]
  cancel := h.cancel
  stage := h.stage.congr (by simp [Event.ends, hp])
  cancelled hm := by
    rcases List.mem_append.mp hm with hm | hm
    · exact h.cancelled hm
    · cases List.mem_singleton.mp hm
      cases hp
  stopped hm := by
    rcases List.mem_append.mp hm with hm | hm
    · exact h.stopped hm
    · cases List.mem_singleton.mp hm
      cases hp
  aborting := h.aborting

/-- The event that clears `_busy`. -/
theorem Moves.finish (hst : s.pc.stage = .active) (hp : p.ends = true)
    (hpc : pc.stage = if p.early then .lingering else .returned)
    (hc : p = .cancelled → s.cancel = true) (hs : p = .stopped → s.pc = .aborting) :
    Moves s [p] ((s.push p).goto pc) where
  pushed := rfl
  cancel := rfl
  stage := by
    have hfilter : ([p].map Event.flash).filter Event.ends = [.flash p] := by
      simp [Event.ends, hp]
    have hpc' : ((s.push p).goto pc).pc.stage = if p.early then .lingering else .returned := hpc
    rw [hst, hpc']
    by_cases he : p.early
    · rw [if_pos he]
      exact .early hfilter he
    · rw [if_neg he]
      exact .final hfilter (Bool.eq_false_iff.mpr he)
  cancelled h := hc (List.mem_singleton.mp h).symm
  stopped h := hs (List.mem_singleton.mp h).symm
  aborting h := by
    have h' : pc = .aborting := h
    rw [h'] at hpc
    by_cases he : p.early <;> simp [he, FlashPc.stage] at hpc

theorem connectLoop_moves (budget : Nat) (hst : s.pc.stage = .active) :
    ∃ new, Moves s new (s.connectLoop budget) := by
  unfold connectLoop
  split
  · rename_i hc
    exact ⟨_, .finish hst rfl rfl (fun _ => hc) nofun⟩
  · exact ⟨_, .goto hst.symm nofun⟩

theorem transferLoop_moves (fw : List UInt8) (current : Nat) (hst : s.pc.stage = .active) :
    ∃ new, Moves s new (s.transferLoop fw current) := by
  unfold transferLoop
  split
  · split
    · rename_i hc
      exact ⟨_, .goto hst.symm fun _ => hc⟩
    · exact ⟨_, .push rfl (.goto hst.symm nofun)⟩
  · exact ⟨_, .push rfl (.goto hst.symm nofun)⟩

theorem pollLoop_moves (left : Nat) (hst : s.pc.stage = .lingering) :
    ∃ new, Moves s new (s.pollLoop left) := by
  unfold pollLoop
  split
  · exact ⟨_, .push rfl (.goto hst.symm nofun)⟩
  · split
    · exact ⟨_, .goto hst.symm nofun⟩
    · exact ⟨_, .goto hst.symm nofun⟩

theorem answer_moves {a : Answer} (h : s.answer fw dry a = some s') : ∃ new, Moves s new s' := by
  unfold answer at h
  split at h
  case h_1 hpc =>
    cases h
    exact ⟨_, .push rfl (.push rfl (.goto (by rw [push, push, hpc]; rfl) nofun))⟩
  case h_2 hpc =>
    split at h
    · split at h <;> cases h
      · exact ⟨_, .finish (by rw [hpc]; rfl) rfl rfl nofun nofun⟩
      · exact ⟨_, .push rfl (.goto (by rw [push, hpc]; rfl) nofun)⟩
    · cases h
      exact ⟨_, .finish (by rw [hpc]; rfl) rfl rfl nofun nofun⟩
  case h_3 hpc =>
    cases h
    exact connectLoop_moves _ (by rw [hpc]; rfl)
  case h_4 hpc =>
    split at h <;> cases h
    · exact ⟨_, .push rfl (.goto (by rw [push, hpc]; rfl) nofun)⟩
    · have hst : ((s.push .startOk).push (.phase .transfer)).pc.stage = .active := by
        rw [push, push, hpc]; rfl
      obtain ⟨new, hmoves⟩ := transferLoop_moves fw 0 hst
      exact ⟨_, .push rfl (.push rfl hmoves)⟩
  case h_6 hpc | h_9 hpc =>
    cases h
    exact ⟨_, .finish (by rw [hpc]; rfl) rfl rfl nofun nofun⟩
  case h_8 sector hpc =>
    cases h
    obtain ⟨new, hmoves⟩ := transferLoop_moves (s := s.push (.progress
      (min ((sector + 1) * sectorSize) fw.length) fw.length (sector + 1) (totalSectors fw)))
      fw (sector + 1) (by rw [push, hpc]; rfl)
    exact ⟨_, .push rfl hmoves⟩
  case h_11 hpc =>
    cases h
    exact ⟨_, .finish (by rw [hpc]; rfl) rfl rfl nofun fun _ => hpc⟩
  case h_12 hpc =>
    cases h
    have hdone (pc : FlashPc) (hpc' : pc.stage = .lingering) :
        Moves s [.done true false] ((s.push (.done true false)).goto pc) :=
      .finish (by rw [hpc]; rfl) rfl hpc' nofun nofun
    -- the state of the loop is set after the last event, which comes to the same
    cases hc : s.cancel with
    | true => exact ⟨_, by simpa [pollLoop, push, goto, hc] using
        (hdone (.closing none) rfl).snoc (p := .phase .reboot) rfl⟩
    | false => exact ⟨_, by simpa [pollLoop, push, goto, hc] using
        (hdone (.polling 2) rfl).snoc (p := .phase .reboot) rfl⟩
  -- an exception goes on after `disconnect`
  case h_5 hpc | h_7 hpc | h_10 hpc | h_13 hpc =>
    cases h
    exact ⟨_, .goto (by rw [hpc]; rfl) nofun⟩
  case h_14 => cases h

theorem step_moves {l : FlashLabel} (hl : l ≠ .cancel) (h : OpFlash.step fw mac dry l s = some s') :
    ∃ new, Moves s new s' := by
  cases l with
  | answer a => exact answer_moves h
  | poll r =>
    simp only [OpFlash.step] at h
    split at h
    case h_1 left hpc =>
      split at h <;> cases h
      · exact ⟨_, .push rfl (.goto (by rw [push, hpc]; rfl) nofun)⟩
      · exact pollLoop_moves left (by rw [hpc]; rfl)
    case h_2 => cases h
  | disconnected =>
    simp only [OpFlash.step] at h
    split at h
    case h_1 hpc =>
      cases h
      exact ⟨_, .leave (by rw [hpc]; rfl)⟩
    case h_2 hpc =>
      cases h
      exact ⟨_, .finish (by rw [hpc]; rfl) rfl rfl nofun nofun⟩
    case h_3 => cases h
  | cancel => exact absurd rfl hl

theorem start_announces {cancel : Bool} :
    Announces .active ((start fw cancel).pushed.map .flash) (start fw cancel).pc.stage := by
  cases cancel with
  | true => exact .final (e := .flash .cancelled) rfl rfl
  | false => exact .quiet rfl

end OpFlash

/-! ## Steps of a coroutine -/

variable {cancel : Bool} {l : TaskLabel} {t t' : Task} {new : List Event}

theorem flashStep_moves {mac : List Char} {dry : Bool} {fw : List UInt8} {l : FlashLabel}
    {s s' : OpFlash} {new : List Push} (hl : l ≠ .cancel)
    (h : flashStep mac dry fw l s = some (s', new)) :
    OpFlash.step fw mac dry l s = some s' ∧ s.Moves new s' := by
  obtain ⟨s₁, hstep, heq⟩ := Option.map_eq_some_iff.mp h
  obtain ⟨new₁, hmoves⟩ := OpFlash.step_moves hl hstep
  cases heq
  rw [hmoves.pushed, List.drop_left]
  exact ⟨hstep, hmoves⟩

/-- What a step of a coroutine can be. -/
inductive Task.Steps (cancel : Bool) : Task → TaskLabel → Task → List Event → Prop
  | scan (file : Except Exc (List UInt8)) (b : Bool) :
      Steps cancel ⟨.posted .scan, b⟩ (.begin file) ⟨.scanning, b⟩ [.scanStart]
  | flash (mac : List Char) (dry : Bool) (fw : List UInt8) (b : Bool) :
      Steps cancel ⟨.posted (.flash mac dry), b⟩ (.begin (.ok fw))
        ⟨.flashing mac dry fw (.start fw cancel), b⟩ ((OpFlash.start fw cancel).pushed.map .flash)
  | unread (mac : List Char) (dry : Bool) (e : Exc) (b : Bool) :
      Steps cancel ⟨.posted (.flash mac dry), b⟩ (.begin (.error e)) ⟨.returned, b⟩
        [.flash (.error e)]
  | scanned (r : Scan) (b : Bool) :
      Steps cancel ⟨.scanning, b⟩ (.scanned r) ⟨.returned, b⟩ [scanDone r]
  | goes (mac : List Char) (dry : Bool) (fw : List UInt8) (k : FlashLabel) (s s' : OpFlash)
      (pushed : List Push) (b : Bool) : OpFlash.step fw mac dry k s = some s' → s.Moves pushed s' →
      Steps cancel ⟨.flashing mac dry fw s, b⟩ (.flash k) ⟨.flashing mac dry fw s', b⟩
        (pushed.map .flash)

theorem Task.steps_of_step (h : t.step cancel l = some (t', new)) : Steps cancel t l t' new := by
  obtain ⟨pc, stopSince⟩ := t
  unfold Task.step at h
  split at h
  case h_1 hpc =>
    cases h
    cases hpc
    exact .scan _ _
  case h_2 hpc =>
    cases h
    cases hpc
    exact .flash ..
  case h_3 hpc =>
    cases h
    cases hpc
    exact .unread ..
  case h_4 r hpc =>
    cases h
    cases hpc
    exact .scanned ..
  case h_5 => cases h
  case h_6 hl hpc =>
    obtain ⟨⟨s', pushed⟩, hstep, heq⟩ := Option.map_eq_some_iff.mp h
    cases heq
    cases hpc
    obtain ⟨hstep', hmoves⟩ := flashStep_moves hl hstep
    exact .goes _ _ _ _ _ _ _ _ hstep' hmoves
  case h_7 => cases h

theorem Task.Steps.announces (h : Steps cancel t l t' new) : Announces t.stage new t'.stage := by
  cases h with
  | scan => exact .quiet rfl
  | flash => exact OpFlash.start_announces
  | unread => exact .final rfl rfl
  | scanned r =>
    have hscan : (scanDone r).ends = true ∧ (scanDone r).early = false := by
      unfold scanDone
      split <;> exact ⟨rfl, rfl⟩
    exact .final (by simp [hscan.1]) hscan.2
  | goes _ _ _ _ _ _ _ _ _ hmoves => exact hmoves.stage

/-! ## Steps of the system -/

namespace OtaGui

/-- What a step of the system can be. -/
inductive Steps (g : OtaGui) : GuiLabel → OtaGui → Prop
  | select (a : Action) (selection : Option Nat) :
      Steps g (.user a) { g with selection := selection }
  | stop : Steps g (.user .onStop) g.onStop
  | post (a : Action) (op : Op) : g.busy = false →
      Steps g (.user a) ({ g with busy := true }.post op)
  | poll : Steps g .poll { g with draining := true }
  | dispatch (e : Event) (queue : List Event) : g.queue = e :: queue →
      Steps g .dispatch ({ g with queue := queue }.dispatch e)
  | drained : Steps g .drained { g with draining := false }
  | worker (i : Nat) (l : TaskLabel) (t t' : Task) (new : List Event) : g.tasks[i]? = some t →
      Task.Steps g.cancel t l t' new →
      Steps g (.worker i l) { g with tasks := g.tasks.set i t', queue := g.queue ++ new }

/-- A handler posts an operation only if `_busy` is clear. -/
theorem act_steps (a : Action) (g : OtaGui) : g.Steps (.user a) (g.act a) := by
  have hsame : g.Steps (.user a) g := .select a g.selection
  cases a with
  | onScan =>
    simp only [act, onScan]
    split
    · exact hsame
    · exact .post _ _ (Bool.eq_false_iff.mpr ‹_›)
  | pick selection => exact .select _ selection
  | onStart isFile dry =>
    simp only [act, onStart]
    split
    · exact hsame
    · split
      · exact hsame
      · split
        · exact .post _ _ (Bool.eq_false_iff.mpr ‹_›)
        · exact hsame
  | onStop => exact .stop

theorem steps_of_step {l : GuiLabel} {g g' : OtaGui} (h : step l g = some g') : g.Steps l g' := by
  unfold step at h
  split at h
  case h_1 =>
    split at h <;> cases h
    exact act_steps ..
  case h_2 =>
    split at h <;> cases h
    exact .poll
  case h_3 =>
    split at h <;> cases h
    exact .dispatch _ _ ‹_›
  case h_4 =>
    split at h <;> cases h
    exact .drained
  case h_5 =>
    split at h
    case h_1 t ht =>
      obtain ⟨⟨t', new⟩, htask, heq⟩ := Option.map_eq_some_iff.mp h
      cases heq
      exact .worker _ _ t t' new ht (Task.steps_of_step htask)
    case h_2 => cases h

/-- What `_dispatch` does with `_busy`, the queue and the operations. -/
theorem dispatch_eq (e : Event) (g : OtaGui) :
    (g.dispatch e).busy = (!e.ends && g.busy) ∧ (g.dispatch e).queue = g.queue ∧
      (g.dispatch e).tasks = g.tasks := by
  unfold dispatch
  split
  · exact ⟨rfl, rfl, rfl⟩
  · split
    · rename_i h
      simp [h]
    · rename_i h
      simp [h]

/-- What holds of a posted coroutine, and is kept by Stop and by the steps of a coroutine, holds of
all coroutines. -/
theorem Steps.forall_tasks {P : Task → Prop} {l : GuiLabel} {g g' : OtaGui} (hst : g.Steps l g')
    (hpost : ∀ op, P ⟨.posted op, false⟩) (hstop : ∀ t, P t → P t.stop)
    (hstep : ∀ i k t t' new, l = .worker i k → g.tasks[i]? = some t →
      Task.Steps g.cancel t k t' new → P t → P t')
    (h : ∀ t ∈ g.tasks, P t) : ∀ t ∈ g'.tasks, P t := by
  cases hst with
  | select | poll | drained => exact h
  | stop =>
    intro t ht
    obtain ⟨t', ht', rfl⟩ := List.mem_map.mp ht
    exact hstop t' (h t' ht')
  | post a op =>
    intro t ht
    rcases List.mem_append.mp ht with ht | ht
    · exact h t ht
    · rw [List.mem_singleton.mp ht]
      exact hpost op
  | dispatch e queue =>
    rw [(dispatch_eq e _).2.2]
    exact h
  | worker i k t t' new ht htask =>
    intro u hu
    rcases List.mem_or_eq_of_mem_set hu with hu | rfl
    · exact h u hu
    · exact hstep i k t u new rfl ht htask (h t (List.mem_of_getElem? ht))

end OtaGui

/-! ## The flashes of a run -/

/-- What the coroutine has done is a run of `op_flash` on its own, with Stop at any time. -/
def Task.Runs (t : Task) : Prop :=
  ∀ mac dry fw s, t.pc = .flashing mac dry fw s → (opFlash fw mac dry).Reach s

theorem Task.Runs.stop (h : t.Runs) : t.stop.Runs := by
  obtain ⟨pc, stopSince⟩ := t
  intro mac dry fw s hpc
  cases pc with
  | flashing mac' dry' fw' s' =>
    cases hpc
    exact .step .cancel (h mac dry fw s' rfl) rfl
  | _ => cases hpc

theorem Task.Runs.step (h : t.Runs) (hst : Task.Steps cancel t l t' new) : t'.Runs := by
  intro mac dry fw s hpc
  cases hst with
  | scan | unread | scanned => cases hpc
  | flash =>
    cases hpc
    exact .init ⟨cancel, rfl⟩
  | goes _ _ _ k s₁ _ _ _ hstep =>
    cases hpc
    exact .step k (h mac dry fw s₁ rfl) hstep

/-- Every flash of the GUI is a run of `op_flash` on its own. -/
theorem flashing_reach {g : OtaGui} (hg : guiSystem.Reach g) : ∀ t ∈ g.tasks, t.Runs := by
  refine hg.invariant (I := fun g => ∀ t ∈ g.tasks, t.Runs) (fun g hg t ht => ?_)
    fun l g g' _ h hst => (OtaGui.steps_of_step hst).forall_tasks ?_ (fun t h => h.stop) ?_ h
  · cases hg
    cases ht
  · intro op mac dry fw s hpc
    cases hpc
  · intro i k t t' new _ _ htask h
    exact h.step htask

end BleOta.Gui
