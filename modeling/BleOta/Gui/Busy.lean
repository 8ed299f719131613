import BleOta.Gui.WorkerSteps

/-!
# One operation at a time

`_busy` is set when an operation is posted and cleared when its end is dispatched. `op_flash`
pushes `done`, `stopped` and the `fail` of a time-out before its last `await`s (the scans of
`_poll_reboot` and `disconnect`), so `_busy` can be clear while it still runs.

* `OneAtATime`: at most one operation runs, and none while `_busy` is clear.
* `Awaited`: `_poll` takes such an event only after the flash has returned.
* `Exclusive`: the invariant. An operation pushes the event that clears `_busy` once, so `_busy`
  counts the operations that have not pushed it and the ones whose event is in the queue.
* `oneAtATime_iff`: a run keeps to one operation at a time exactly if its dispatches are awaited.
-/

namespace BleOta.Gui

open Host

/-! ## The operations that run -/

namespace OtaGui

/-- The number of coroutines at a stage. -/
def count (stage : Stage) (g : OtaGui) : Nat := g.tasks.countP (·.stage = stage)

/-- The operations that have been posted and have not returned. -/
def running (g : OtaGui) : Nat := g.tasks.countP (·.stage ≠ .returned)

/-- The events in the queue that clear `_busy`. -/
def ended (g : OtaGui) : Nat := g.queue.countP Event.ends

end OtaGui

/-- At most one operation runs, so none was posted while another one ran; and while `_busy` is
clear, none runs. -/
def OneAtATime (g : OtaGui) : Prop := g.running ≤ 1 ∧ (g.busy = false → g.running = 0)

instance (g : OtaGui) : Decidable (OneAtATime g) := inferInstanceAs (Decidable (_ ∧ _))

/-- `_poll` does not take `done`, `stopped` or the `fail` of a time-out while a flash still polls
for the reboot or disconnects. -/
def Awaited (g : OtaGui) : GuiLabel → Prop
  | .dispatch => ∀ e ∈ g.queue.head?, e.early = true → ∀ t ∈ g.tasks, t.stage ≠ .lingering
  | _ => True

/-! ## Counting -/

variable {g g' : OtaGui} {stage : Stage}

theorem countP_set_add {α : Type} {p : α → Bool} {l : List α} {i : Nat} {a b : α}
    (h : l[i]? = some a) :
    (l.set i b).countP p + (if p a then 1 else 0) = l.countP p + (if p b then 1 else 0) := by
  obtain ⟨hi, rfl⟩ := List.getElem?_eq_some_iff.mp h
  have hpos : p l[i] = true → 0 < l.countP p :=
    fun hp => List.countP_pos_iff.mpr ⟨_, List.getElem_mem hi, hp⟩
  rw [List.countP_set hi]
  split
  · have := hpos ‹_›
    omega
  · omega

@[simp] theorem Task.stage_stop (t : Task) : t.stop.stage = t.stage := by
  obtain ⟨pc, stopSince⟩ := t
  cases pc <;> rfl

namespace OtaGui

theorem running_eq (g : OtaGui) : g.running = g.count .active + g.count .lingering := by
  unfold running count
  induction g.tasks with
  | nil => rfl
  | cons t tasks ih =>
    simp only [List.countP_cons, ih]
    cases t.stage <;> simp <;> omega

theorem count_pos : g.count stage ≠ 0 ↔ ∃ t ∈ g.tasks, t.stage = stage := by
  unfold count
  rw [← Nat.pos_iff_ne_zero, List.countP_pos_iff]
  simp

theorem count_post {op : Op} :
    (g.post op).count stage = g.count stage + if stage = .active then 1 else 0 := by
  cases stage <;> simp [count, post, Task.stage]

@[simp] theorem count_onStop : g.onStop.count stage = g.count stage := by
  simp [count, onStop, List.countP_map, Function.comp_def]

end OtaGui

/-! ## The invariant -/

/-- The invariant of the runs that keep to one operation at a time. -/
structure Exclusive (g : OtaGui) : Prop where
  /-- Each operation pushes the event that clears `_busy` once, and `_dispatch` takes it once. -/
  once : g.ended + g.count .active = g.busy.toNat
  single : g.count .active + g.count .lingering ≤ 1
  idle : g.busy = false → g.count .lingering = 0
  early : g.count .lingering ≠ 0 → ∀ e ∈ g.queue, e.ends = true → e.early = true

theorem Exclusive.init : Exclusive .init := ⟨rfl, by decide, fun _ => rfl, fun _ _ h => nomatch h⟩

theorem Exclusive.oneAtATime (h : Exclusive g) : OneAtATime g := by
  have honce := h.once
  refine ⟨by rw [g.running_eq]; exact h.single, fun hb => ?_⟩
  rw [hb, Bool.toNat_false] at honce
  have hidle := h.idle hb
  rw [g.running_eq]
  omega

/-- `on_scan` and `on_start` post only while `_busy` is clear, so while nothing runs. -/
theorem Exclusive.post (h : Exclusive g) (hb : g.busy = false) (op : Op) :
    Exclusive ({ g with busy := true }.post op) := by
  have honce := h.once
  have hidle := h.idle hb
  rw [hb, Bool.toNat_false] at honce
  have hactive : ({ g with busy := true }.post op).count .active = 1 := by
    have hzero : g.count .active = 0 := by omega
    rw [OtaGui.count_post]
    exact congrArg (· + 1) hzero
  have hlinger : ({ g with busy := true }.post op).count .lingering = 0 := by
    rw [OtaGui.count_post]
    exact hidle
  have hended : ({ g with busy := true }.post op).ended = 0 :=
    Nat.eq_zero_of_add_eq_zero_right honce
  exact
    { once := by rw [hended, hactive]; rfl
      single := by omega
      idle := by intro h; cases h
      early := fun hne => absurd hlinger hne }

theorem Exclusive.stop (h : Exclusive g) : Exclusive g.onStop where
  once := by rw [OtaGui.count_onStop]; exact h.once
  single := by rw [OtaGui.count_onStop, OtaGui.count_onStop]; exact h.single
  idle := by rw [OtaGui.count_onStop]; exact h.idle
  early := by rw [OtaGui.count_onStop]; exact h.early

section worker

variable {i : Nat} {t t' : Task} {new : List Event}

theorem count_worker (stage : Stage) (ht : g.tasks[i]? = some t)
    (htasks : g'.tasks = g.tasks.set i t') :
    g'.count stage + (if t.stage = stage then 1 else 0) =
      g.count stage + (if t'.stage = stage then 1 else 0) := by
  have h := countP_set_add (p := (·.stage = stage)) (b := t') ht
  simpa [OtaGui.count, htasks] using h

theorem ended_worker (hqueue : g'.queue = g.queue ++ new) :
    g'.ended = g.ended + (new.filter Event.ends).length := by
  rw [OtaGui.ended, hqueue, List.countP_append, OtaGui.ended, ← List.countP_eq_length_filter]

/-- An active operation that goes on is the only one that runs, and no end is in the queue. -/
theorem Exclusive.worker (h : Exclusive g) (ht : g.tasks[i]? = some t)
    (hann : Announces t.stage new t'.stage) (hbusy : g'.busy = g.busy)
    (hqueue : g'.queue = g.queue ++ new) (htasks : g'.tasks = g.tasks.set i t') :
    Exclusive g' := by
  have hactive := count_worker .active ht htasks
  have hlinger := count_worker .lingering ht htasks
  have hended := ended_worker hqueue
  have honce := h.once
  have hsingle := h.single
  have hidle := h.idle
  have hle : g.busy.toNat ≤ 1 := Bool.toNat_le g.busy
  -- the events of the queue, when the step adds no end
  have hsame (hnew : new.filter Event.ends = []) (hne : g.count .lingering ≠ 0) :
      ∀ e ∈ g'.queue, e.ends = true → e.early = true := by
    intro e he hends
    rw [hqueue] at he
    rcases List.mem_append.mp he with he | he
    · exact h.early hne e he hends
    · exact absurd hends (List.filter_eq_nil_iff.mp hnew e he)
  generalize t.stage = stage at hann hactive hlinger
  generalize t'.stage = stage' at hann hactive hlinger
  rw [← hbusy] at honce hidle hle
  cases hann with
  | quiet hnew =>
    rw [hnew, List.length_nil] at hended
    refine ⟨by omega, by omega, fun hb => ?_, fun hne => hsame hnew (by omega)⟩
    have := hidle hb
    omega
  | leave hnew =>
    rw [hnew, List.length_nil] at hended
    simp only [reduceCtorEq, ↓reduceIte] at hactive hlinger
    exact ⟨by omega, by omega, by omega, fun hne => hsame hnew (by omega)⟩
  | @early e _ hnew he =>
    rw [hnew, List.length_singleton] at hended
    simp only [reduceCtorEq, ↓reduceIte] at hactive hlinger
    have hnone : g.ended = 0 := by omega
    refine ⟨by omega, by omega, fun hb => ?_, fun _ e' he' hends => ?_⟩
    · rw [hb, Bool.toNat_false] at honce
      omega
    · rw [hqueue] at he'
      rcases List.mem_append.mp he' with he' | he'
      · exact absurd hends (by simpa using List.countP_eq_zero.mp hnone e' he')
      · have hmem : e' ∈ new.filter Event.ends := List.mem_filter.mpr ⟨he', hends⟩
        rw [hnew, List.mem_singleton] at hmem
        rwa [hmem]
  | final hnew he =>
    rw [hnew, List.length_singleton] at hended
    simp only [reduceCtorEq, ↓reduceIte] at hactive hlinger
    exact ⟨by omega, by omega, by omega, fun hne => absurd hne (by omega)⟩

end worker

/-! ## Dispatches -/

section dispatch

variable {e : Event} {queue : List Event}

theorem ended_cons (hq : g.queue = e :: queue) :
    g.ended = queue.countP Event.ends + e.ends.toNat := by
  rw [OtaGui.ended, hq, List.countP_cons]
  cases e.ends <;> rfl

/-- If the event clears `_busy`, it was the only one that does, and nothing is active. -/
theorem Exclusive.dispatch_ends (h : Exclusive g) (hq : g.queue = e :: queue)
    (he : e.ends = true) : queue.countP Event.ends = 0 ∧ g.count .active = 0 := by
  have honce := h.once
  have hle : g.busy.toNat ≤ 1 := Bool.toNat_le g.busy
  rw [ended_cons hq, he, Bool.toNat_true] at honce
  omega

/-- `_dispatch` keeps the invariant if no operation lingers when it clears `_busy`. -/
theorem Exclusive.dispatch (h : Exclusive g) (hq : g.queue = e :: queue)
    (hc : e.ends = true → g.count .lingering = 0) :
    Exclusive ({ g with queue := queue }.dispatch e) := by
  obtain ⟨hbusy, hqueue, htasks⟩ := ({ g with queue := queue } : OtaGui).dispatch_eq e
  generalize ({ g with queue := queue } : OtaGui).dispatch e = g' at hbusy hqueue htasks
  have hcount (stage : Stage) : g'.count stage = g.count stage := by
    rw [OtaGui.count, htasks, OtaGui.count]
  have hended : g'.ended = queue.countP Event.ends := by rw [OtaGui.ended, hqueue]
  have hearly : g.count .lingering ≠ 0 → ∀ e ∈ g'.queue, e.ends = true → e.early = true := by
    intro hne e' he'
    rw [hqueue] at he'
    exact h.early hne e' (hq ▸ List.mem_cons_of_mem _ he')
  refine ⟨?_, by rw [hcount, hcount]; exact h.single, ?_, by rw [hcount]; exact hearly⟩
  · rw [hended, hcount]
    cases he : e.ends with
    | true =>
      obtain ⟨hzero, hactive⟩ := h.dispatch_ends hq he
      rw [hzero, hactive, hbusy, he]
      rfl
    | false =>
      have honce := h.once
      rw [ended_cons hq, he] at honce
      rw [hbusy, he]
      exact honce
  · intro hb
    rw [hcount]
    cases he : e.ends with
    | true => exact hc he
    | false =>
      rw [hbusy, he] at hb
      exact h.idle hb

/-- The events that clear `_busy` when an operation lingers are early ones, which `Awaited` holds
back. -/
theorem Awaited.lingering (h : Exclusive g) (hq : g.queue = e :: queue)
    (hc : Awaited g .dispatch) (he : e.ends = true) : g.count .lingering = 0 := by
  by_contra hne
  have hearly : e.early = true := h.early hne e (by rw [hq]; exact List.mem_cons_self ..) he
  obtain ⟨t, ht, hst⟩ := OtaGui.count_pos.mp hne
  exact hc e (by rw [hq]; rfl) hearly t ht hst

theorem Event.ends_of_early (he : e.early = true) : e.ends = true := by
  cases e with
  | flash p => cases p <;> first | rfl | cases he
  | _ => cases he

end dispatch

/-! ## Runs -/

theorem Exclusive.step {l : GuiLabel} (h : Exclusive g) (hc : Awaited g l)
    (hst : g.Steps l g') : Exclusive g' := by
  cases hst with
  | select | poll | drained => exact ⟨h.once, h.single, h.idle, h.early⟩
  | stop => exact h.stop
  | post a op hb => exact h.post hb op
  | dispatch e queue hq => exact h.dispatch hq (hc.lingering h hq)
  | worker i l t t' new ht htask => exact h.worker ht htask.announces rfl rfl rfl

/-- A dispatch that is not awaited clears `_busy` while an operation lingers. -/
theorem OneAtATime.awaited {l : GuiLabel} (hst : g.Steps l g') (h : OneAtATime g') :
    Awaited g l := by
  cases hst with
  | dispatch e queue hq =>
    obtain ⟨hbusy, -, htasks⟩ := ({ g with queue := queue } : OtaGui).dispatch_eq e
    intro e' he' hearly t ht hlinger
    rw [hq] at he'
    cases he'
    rw [Event.ends_of_early hearly] at hbusy
    have hzero := h.2 hbusy
    rw [OtaGui.running, htasks, List.countP_eq_zero] at hzero
    have := hzero t ht
    simp [hlinger] at this
  | _ => trivial

/-- **`_busy` keeps to one operation at a time exactly if the ends are awaited**: in every run, at
most one coroutine has not returned and none while `_busy` is clear, so that `on_scan` and
`on_start` post only when no operation runs, if and only if no `_poll` takes a `done`, a `stopped`
or the `fail` of a time-out while a flash still polls for the reboot or disconnects. -/
theorem oneAtATime_iff (ls : List GuiLabel) :
    guiSystem.Always OneAtATime ls .init ↔ guiSystem.Meets Awaited ls .init :=
  Lib.Lts.always_iff_meets (fun _ h => h.oneAtATime)
    (fun _ _ _ h hc hst => h.step hc (OtaGui.steps_of_step hst))
    (fun _ _ _ _ hst h => h.awaited (OtaGui.steps_of_step hst)) Exclusive.init

/-- A scan, and the device that it found is picked. -/
def scanAndPick : List GuiLabel :=
  .user .onScan :: .worker 0 (.begin (.ok [])) :: .worker 0 (.scanned deviceScan) ::
    (drain 2).concat (.user (.pick (some 0)))

/-- A flash of one byte, up to the first scan of `_poll_reboot`. -/
def flashToReboot : List GuiLabel :=
  [.user (.onStart true false), .worker 1 (.begin (.ok [0xE9])),
    .worker 1 (.flash (.answer (.connect (.ok 517)))),
    .worker 1 (.flash (.answer (.start (.ok ())))),
    .worker 1 (.flash (.answer (.sector (.confirmed 0)))),
    .worker 1 (.flash (.answer (.stop (.ok true))))]

/-- `on_start` once more, after `_poll` has drained the queue. -/
def startWhilePolling : List GuiLabel :=
  scanAndPick ++ flashToReboot ++ (drain 11).concat (.user (.onStart true false))

/-- The second flash is posted while the first one polls for the reboot. -/
theorem startWhilePolling_overlaps : ∃ g,
    guiSystem.exec startWhilePolling .init = some g ∧ g.running = 2 ∧ ¬OneAtATime g := by
  have hexec : guiSystem.exec startWhilePolling .init =
      some (guiSystem.run startWhilePolling .init) := rfl
  have hrun : (guiSystem.run startWhilePolling .init).running = 2 := rfl
  refine ⟨_, hexec, hrun, fun h => ?_⟩
  have hle := h.1
  rw [hrun] at hle
  exact absurd hle (by decide)

end BleOta.Gui
