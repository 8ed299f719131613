import BleOta.Gui.WorkerSteps

/-!
# What Stop stops

The flag of Stop is set by `on_stop` and never cleared. A flash ends as cancelled or stopped only
if it finds the flag set, but the flag can be from an earlier operation, or from a scan.

* `CancelsOwn`: each flash that ended as cancelled or stopped was stopped since its `on_start`.
* `Unlatched`: a flash begins with the flag clear, or was stopped since its `on_start`.
* `OpFlash.Heard`: what `op_flash` does on its own, from the flag that it finds.
* `cancelsOwn_iff`: Stop stops only the running flash exactly if every flash begins unlatched.
-/

namespace BleOta.Gui

open Host

/-- `op_flash` has pushed `cancelled` or `stopped`. -/
def OpFlash.StoppedByUser (s : OpFlash) : Prop := .cancelled ∈ s.pushed ∨ .stopped ∈ s.pushed

/-- Each flash that ended as cancelled or stopped was stopped since its `on_start`. -/
def CancelsOwn (g : OtaGui) : Prop :=
  ∀ t ∈ g.tasks, ∀ mac dry fw s, t.pc = .flashing mac dry fw s → s.StoppedByUser →
    t.stopSince = true

/-- When a flash has read its file, the flag of Stop is clear, or `on_stop` has run since its
`on_start`. -/
def Unlatched (g : OtaGui) : GuiLabel → Prop
  | .worker i (.begin (.ok _)) => ∀ t ∈ g.tasks[i]?, ∀ mac dry, t.pc = .posted (.flash mac dry) →
      g.cancel = true → t.stopSince = true
  | _ => True

/-! ## `op_flash` and the flag -/

variable {s s' : OpFlash} {g g' : OtaGui} {t t' : Task} {new : List Push}

/-- `op_flash` aborts, and ends as cancelled or stopped, only after the flag is set. -/
structure OpFlash.Heard (s : OpFlash) : Prop where
  aborting : s.pc = .aborting → s.cancel = true
  stopped : s.StoppedByUser → s.cancel = true

namespace OpFlash

theorem Heard.start {fw : List UInt8} {cancel : Bool} : (start fw cancel).Heard := by
  cases cancel with
  | true => exact ⟨fun _ => rfl, fun _ => rfl⟩
  | false =>
    have hpushed : (OpFlash.start fw false).pushed =
        [.fwLoaded fw.length (totalSectors fw), .phase .connect] := rfl
    refine ⟨fun h => (nomatch h), fun h => ?_⟩
    simp [StoppedByUser, hpushed] at h

theorem Heard.moves (h : s.Heard) (hm : s.Moves new s') : s'.Heard := by
  refine ⟨fun hpc => hm.cancel.trans (hm.aborting hpc), fun hs => ?_⟩
  rw [hm.cancel]
  unfold StoppedByUser at hs
  rw [hm.pushed, List.mem_append, List.mem_append] at hs
  rcases hs with (hs | hs) | (hs | hs)
  · exact h.stopped (.inl hs)
  · exact hm.cancelled hs
  · exact h.stopped (.inr hs)
  · exact h.aborting (hm.stopped hs)

theorem Heard.stop : ({ s with cancel := true } : OpFlash).Heard := ⟨fun _ => rfl, fun _ => rfl⟩

end OpFlash

/-! ## The invariant -/

/-- A flash with the flag set was stopped since its `on_start`. -/
def Task.Owns (t : Task) : Prop :=
  ∀ mac dry fw s, t.pc = .flashing mac dry fw s →
    s.Heard ∧ (s.cancel = true → t.stopSince = true)

theorem Task.Owns.stop (t : Task) : t.stop.Owns := by
  obtain ⟨pc, stopSince⟩ := t
  intro mac dry fw s hpc
  cases pc with
  | flashing mac' dry' fw' s' =>
    cases hpc
    exact ⟨OpFlash.Heard.stop, fun _ => rfl⟩
  | _ => cases hpc

/-- A step of a coroutine, if a flash does not begin with an old request. -/
theorem Task.Owns.step {cancel : Bool} {l : TaskLabel} {events : List Event} (h : t.Owns)
    (hc : ∀ fw mac dry, l = .begin (.ok fw) → t.pc = .posted (.flash mac dry) → cancel = true →
      t.stopSince = true)
    (hst : Task.Steps cancel t l t' events) : t'.Owns := by
  intro mac dry fw s hpc
  cases hst with
  | scan | unread | scanned => cases hpc
  | flash =>
    cases hpc
    refine ⟨OpFlash.Heard.start, fun hset => hc fw mac dry rfl rfl ?_⟩
    have hcancel : (OpFlash.start fw cancel).cancel = cancel := by cases cancel <;> rfl
    exact hcancel.symm.trans hset
  | goes _ _ _ _ s₁ _ _ _ _ hmoves =>
    cases hpc
    obtain ⟨hheard, hset⟩ := h mac dry fw s₁ rfl
    exact ⟨hheard.moves hmoves, fun hset' => hset (hmoves.cancel.symm.trans hset')⟩

/-- The invariant of the runs whose flashes begin unlatched. -/
def Owned (g : OtaGui) : Prop := ∀ t ∈ g.tasks, t.Owns

theorem Owned.cancelsOwn (h : Owned g) : CancelsOwn g := by
  intro t ht mac dry fw s hpc hs
  obtain ⟨hheard, hset⟩ := h t ht mac dry fw s hpc
  exact hset (hheard.stopped hs)

theorem Owned.step {l : GuiLabel} (h : Owned g) (hc : Unlatched g l) (hst : g.Steps l g') :
    Owned g' := by
  refine hst.forall_tasks (fun op mac dry fw s hpc => ?_) (fun t _ => Task.Owns.stop t) ?_ h
  · cases hpc
  · rintro i k t t' new rfl ht htask howns
    refine howns.step (fun fw mac dry hl hpc hset => ?_) htask
    subst hl
    exact hc t ht mac dry hpc hset

/-! ## Runs -/

theorem OpFlash.start_stoppedByUser {fw : List UInt8} {cancel : Bool} :
    (start fw cancel).StoppedByUser ↔ cancel = true := by
  have hstopped : .stopped ∉ (start fw cancel).pushed := by
    cases cancel <;> simp [start, connectLoop, push, goto]
  have hcancelled : .cancelled ∈ (start fw cancel).pushed ↔ cancel = true := by
    cases cancel <;> simp [start, connectLoop, push, goto]
  rw [StoppedByUser, hcancelled, or_iff_left hstopped]

/-- A flash that begins with an old request is cancelled at once. -/
theorem CancelsOwn.unlatched {l : GuiLabel} (hst : g.Steps l g') (h : CancelsOwn g') :
    Unlatched g l := by
  cases hst with
  | worker i l t t' new ht htask =>
    cases htask with
    | flash mac dry fw b =>
      intro t₁ ht₁ mac₁ dry₁ hpc hset
      obtain rfl := Option.some.inj (ht.symm.trans ht₁)
      have hi := (List.getElem?_eq_some_iff.mp ht).1
      exact h ⟨.flashing mac dry fw (.start fw g.cancel), b⟩ (List.mem_set hi _) mac dry fw _ rfl
        (OpFlash.start_stoppedByUser.mpr hset)
    | scan file =>
      -- `op_scan` reads no file
      cases file with
      | ok fw =>
        intro t₁ ht₁ mac dry hpc
        obtain rfl := Option.some.inj (ht.symm.trans ht₁)
        cases hpc
      | error => trivial
    | _ => trivial
  | _ => trivial

/-- A flash that nobody has stopped since its `on_start` goes on to connect. -/
theorem Unlatched.connects {i : Nat} {fw : List UInt8} {mac : List Char} {dry : Bool}
    (hc : Unlatched g (.worker i (.begin (.ok fw))))
    (ht : g.tasks[i]? = some ⟨.posted (.flash mac dry), false⟩)
    (hst : OtaGui.step (.worker i (.begin (.ok fw))) g = some g') :
    ∃ s, g'.tasks[i]? = some ⟨.flashing mac dry fw s, false⟩ ∧ s.pc = .connecting 1 := by
  have hclear : g.cancel = false := by
    cases hset : g.cancel with
    | false => rfl
    | true => cases hc _ ht mac dry rfl hset
  cases OtaGui.steps_of_step hst with
  | worker _ _ t t' new ht' htask =>
    obtain rfl := Option.some.inj (ht'.symm.trans ht)
    cases htask with
    | flash =>
      have hi := (List.getElem?_eq_some_iff.mp ht).1
      exact ⟨_, List.getElem?_set_self hi, by rw [hclear]; rfl⟩

/-- **Stop stops only the running flash exactly if the flag is not left over**: in every run, each
flash that has ended as cancelled or stopped was stopped since its `on_start`, if and only if each
flash that has read its file finds the flag clear or was stopped since its `on_start`. Such a flash
goes on to connect if it was not. -/
theorem cancelsOwn_iff (ls : List GuiLabel) :
    (guiSystem.Always CancelsOwn ls .init ↔ guiSystem.Meets Unlatched ls .init) ∧
    ∀ g g' i fw mac dry, Unlatched g (.worker i (.begin (.ok fw))) →
      g.tasks[i]? = some ⟨.posted (.flash mac dry), false⟩ →
      OtaGui.step (.worker i (.begin (.ok fw))) g = some g' →
      ∃ s, g'.tasks[i]? = some ⟨.flashing mac dry fw s, false⟩ ∧ s.pc = .connecting 1 := by
  have hinit : Owned .init := by
    intro t ht
    cases ht
  refine ⟨Lib.Lts.always_iff_meets (fun _ h => h.cancelsOwn)
    (fun _ _ _ h hc hst => Owned.step h hc (OtaGui.steps_of_step hst))
    (fun _ _ _ _ hst h => h.unlatched (OtaGui.steps_of_step hst)) hinit, ?_⟩
  intro g g' i fw mac dry hc ht hst
  exact hc.connects ht hst

/-- Stop during a scan, and then a flash. -/
def stopInScan : List GuiLabel :=
  .user .onScan :: .worker 0 (.begin (.ok [])) :: .user .onStop ::
    .worker 0 (.scanned deviceScan) :: drain 2 ++
    [.user (.pick (some 0)), .user (.onStart true false), .worker 1 (.begin (.ok [0xE9]))]

/-- The flash is cancelled, though nobody has pressed Stop since its `on_start`. -/
theorem stopInScan_cancels : ∃ g s,
    guiSystem.exec stopInScan .init = some g ∧
      g.tasks[1]? = some ⟨.flashing ['c', ':', '6'] false [0xE9] s, false⟩ ∧
      s.pc = .returned ∧ .cancelled ∈ s.pushed ∧ ¬CancelsOwn g := by
  have hexec : guiSystem.exec stopInScan .init = some (guiSystem.run stopInScan .init) := rfl
  have ht : (guiSystem.run stopInScan .init).tasks[1]? =
      some ⟨.flashing ['c', ':', '6'] false [0xE9] (.start [0xE9] true), false⟩ := rfl
  have hpushed : .cancelled ∈ (OpFlash.start [0xE9] true).pushed := by decide
  refine ⟨_, _, hexec, ht, rfl, hpushed, fun h => ?_⟩
  have hsince := h _ (List.mem_of_getElem? ht) _ _ _ _ rfl (.inl hpushed)
  cases hsince

end BleOta.Gui
