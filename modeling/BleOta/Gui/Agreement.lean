import BleOta.Gui.Flash
import BleOta.Host.Reboot
import Mathlib.Data.List.Induction

/-!
# The GUI and the host tool on the same session

The GUI shows SUCCESS as soon as the Stop after the transfer has returned; `run_flash` then still
looks for the reboot. So they agree exactly when the transfer or the Stop does not come to its end,
or the scans show a reboot.

* `Agree`: how the coroutine and `run_flash` stand after the same answers (`Agree.exec`).
* `success_accepted_iff`: when SUCCESS of the GUI is what `run_flash` would report.
-/

namespace BleOta.Gui

open Host

variable {fw : List UInt8} {mac : List Char} {dry : Bool} {namePrefix : List Char}
  {target : Option (List Char)}

/-! ## The session -/

/-- The sector after the last one that `send_sector` confirmed. -/
def nextSector (ls : List FlashLabel) : Nat :=
  ls.foldl (fun next l => match l with
    | .answer (.sector (.confirmed sector)) => sector + 1
    | _ => next) 0

/-- All sectors are confirmed, and then the Stop returns. -/
def Transferred (fw : List UInt8) (ls : List FlashLabel) : Prop :=
  ∃ pre acked post, ls = pre ++ .answer (.stop (.ok acked)) :: post ∧
    totalSectors fw ≤ nextSector pre

/-- The answers of the session. -/
def answers (ls : List FlashLabel) : List RunLabel :=
  ls.filterMap fun l => match l with
    | .answer a => some (.answer a)
    | _ => none

/-- `run_flash`, which has found the device, returns 0 for the same answers and the scans `w`. -/
def Accepts (fw : List UInt8) (namePrefix : List Char) (target : Option (List Char)) (dry : Bool)
    (ls : List FlashLabel) (w : Watch) : Prop :=
  (runFlash fw namePrefix target dry).exec (answers ls ++ [.watch w]) (.connecting 1) =
    some (.returned 0)

variable {ls : List FlashLabel} {l : FlashLabel} {s s' : OpFlash}

theorem nextSector_snoc : nextSector (ls ++ [l]) = match l with
    | .answer (.sector (.confirmed sector)) => sector + 1
    | _ => nextSector ls := by
  simp [nextSector]

theorem transferred_snoc : Transferred fw (ls ++ [l]) ↔
    Transferred fw ls ∨
      (∃ acked, l = .answer (.stop (.ok acked))) ∧ totalSectors fw ≤ nextSector ls := by
  constructor
  · rintro ⟨pre, acked, post, heq, hle⟩
    rcases List.eq_nil_or_concat post with rfl | ⟨post, x, rfl⟩
    · obtain ⟨rfl, hx⟩ := List.append_inj' heq rfl
      cases hx
      exact .inr ⟨⟨acked, rfl⟩, hle⟩
    · have heq' : ls ++ [l] = (pre ++ .answer (.stop (.ok acked)) :: post) ++ [x] := by
        rw [heq]
        simp
      obtain ⟨rfl, -⟩ := List.append_inj' heq' rfl
      exact .inl ⟨pre, acked, post, rfl, hle⟩
  · rintro (⟨pre, acked, post, rfl, hle⟩ | ⟨⟨acked, rfl⟩, hle⟩)
    · exact ⟨pre, acked, post ++ [l], by simp, hle⟩
    · exact ⟨ls, acked, [], rfl, hle⟩

theorem answers_snoc : answers (ls ++ [l]) = match l with
    | .answer a => answers ls ++ [.answer a]
    | _ => answers ls := by
  cases l <;> simp [answers]

namespace OpFlash

@[simp] theorem push_pc {p : Push} : (s.push p).pc = s.pc := rfl

@[simp] theorem goto_pc {pc : FlashPc} : (s.goto pc).pc = pc := rfl

@[simp] theorem goto_pushed {pc : FlashPc} : (s.goto pc).pushed = s.pushed := rfl

end OpFlash

@[simp] theorem showsSuccess_push {p : Push} : ShowsSuccess (s.push p).pushed ↔
    ShowsSuccess s.pushed ∨ banner p = some .success ∨ banner p = some .successOnline := by
  simp [ShowsSuccess, OpFlash.push, or_and_right, exists_or]

/-! ## The two sessions side by side -/

variable (fw dry namePrefix target) in
/-- The coroutine in the state `s` and `run_flash`, after the answers of `ls`. -/
structure Agree (ls : List FlashLabel) (s : OpFlash) : Prop where
  reported : ShowsSuccess s.pushed ↔ dry = false ∧ Transferred fw ls
  pc : match s.pc with
    | .connecting budget => ¬ShowsSuccess s.pushed ∧ nextSector ls = 0 ∧
        (runFlash fw namePrefix target dry).exec (answers ls) (.connecting 1) =
          some (.connecting budget)
    | .retrying budget => ¬ShowsSuccess s.pushed ∧ nextSector ls = 0 ∧
        (runFlash fw namePrefix target dry).exec (answers ls) (.connecting 1) =
          some (.retrying budget)
    | .starting => ¬ShowsSuccess s.pushed ∧ nextSector ls = 0 ∧
        (runFlash fw namePrefix target dry).exec (answers ls) (.connecting 1) = some .starting
    | .dryStopping => ¬ShowsSuccess s.pushed ∧ dry = true
    | .sending current => ¬ShowsSuccess s.pushed ∧ dry = false ∧
        (runFlash fw namePrefix target dry).exec (answers ls) (.connecting 1) =
          some (.sending current)
    | .aborting => ¬ShowsSuccess s.pushed ∧ nextSector ls < totalSectors fw
    | .stopping => ¬ShowsSuccess s.pushed ∧ dry = false ∧ totalSectors fw ≤ nextSector ls ∧
        (runFlash fw namePrefix target dry).exec (answers ls) (.connecting 1) = some .stopping
    | .polling _ => ShowsSuccess s.pushed ∧
        (runFlash fw namePrefix target dry).exec (answers ls) (.connecting 1) = some .watching
    | .closing _ | .returned => ShowsSuccess s.pushed →
        (runFlash fw namePrefix target dry).exec (answers ls) (.connecting 1) = some .watching

/-- The top of the transfer loop, in both. -/
theorem Agree.transferLoop (hrep : ShowsSuccess s.pushed ↔ dry = false ∧ Transferred fw ls)
    (hshow : ¬ShowsSuccess s.pushed) (hdry : dry = false)
    (hcli : (runFlash fw namePrefix target dry).exec (answers ls) (.connecting 1) =
      some (.transferLoop fw (nextSector ls))) :
    Agree fw dry namePrefix target ls (s.transferLoop fw (nextSector ls)) := by
  unfold OpFlash.transferLoop
  unfold RunPc.transferLoop at hcli
  by_cases hlt : nextSector ls < totalSectors fw
  · rw [if_pos hlt] at hcli
    rw [if_pos hlt]
    by_cases hc : s.cancel
    · rw [if_pos hc]
      exact ⟨hrep, hshow, hlt⟩
    · rw [if_neg hc]
      have hshow' : ¬ShowsSuccess (s.push (.sectorCurrent (nextSector ls))).pushed := by
        simp [hshow, banner]
      exact ⟨by simp [hrep, banner], hshow', hdry, hcli⟩
  · rw [if_neg hlt] at hcli
    rw [if_neg hlt]
    have hshow' : ¬ShowsSuccess (s.push (.phase .stop)).pushed := by simp [hshow, banner]
    exact ⟨by simp [hrep, banner], hshow', hdry, Nat.le_of_not_lt hlt, hcli⟩

/-- The session ends without SUCCESS. -/
theorem Agree.over (hrep : ShowsSuccess s.pushed ↔ dry = false ∧ Transferred fw ls)
    (hshow : ¬ShowsSuccess s.pushed) (hpc : s.pc = .returned ∨ ∃ e, s.pc = .closing e) :
    Agree fw dry namePrefix target ls s := by
  refine ⟨hrep, ?_⟩
  rcases hpc with hpc | ⟨e, hpc⟩
  · rw [hpc]
    exact fun hx => absurd hx hshow
  · rw [hpc]
    exact fun hx => absurd hx hshow

/-- The top of the connection loop. -/
theorem Agree.connectLoop {budget : Nat}
    (hrep : ShowsSuccess s.pushed ↔ dry = false ∧ Transferred fw ls)
    (hshow : ¬ShowsSuccess s.pushed) (hnext : nextSector ls = 0)
    (hcli : (runFlash fw namePrefix target dry).exec (answers ls) (.connecting 1) =
      some (.connecting budget)) :
    Agree fw dry namePrefix target ls (s.connectLoop budget) := by
  unfold OpFlash.connectLoop
  by_cases hc : s.cancel
  · rw [if_pos hc]
    exact .over (by simp [hrep, banner]) (by simp [hshow, banner]) (.inl rfl)
  · rw [if_neg hc]
    exact ⟨hrep, hshow, hnext, hcli⟩

/-- The top of the loop of `_poll_reboot`. -/
theorem Agree.pollLoop {left : Nat}
    (hrep : ShowsSuccess s.pushed ↔ dry = false ∧ Transferred fw ls)
    (hshow : ShowsSuccess s.pushed)
    (hcli : (runFlash fw namePrefix target dry).exec (answers ls) (.connecting 1) =
      some .watching) :
    Agree fw dry namePrefix target ls (s.pollLoop left) := by
  unfold OpFlash.pollLoop
  cases left with
  | zero => exact ⟨by simp [hrep, banner], fun _ => hcli⟩
  | succ left =>
    dsimp only
    by_cases hc : s.cancel
    · rw [if_pos hc]
      exact ⟨hrep, fun _ => hcli⟩
    · rw [if_neg hc]
      exact ⟨hrep, hshow, hcli⟩

theorem Agree.start {cancel : Bool} : Agree fw dry namePrefix target [] (.start fw cancel) := by
  have hshow : ¬ShowsSuccess [.fwLoaded fw.length (totalSectors fw), .phase .connect] := by
    simp [ShowsSuccess, banner]
  have htr : ¬Transferred fw [] := by
    rintro ⟨pre, acked, post, heq, -⟩
    simp at heq
  exact Agree.connectLoop ⟨fun hx => absurd hx hshow, fun hx => absurd hx.2 htr⟩ hshow rfl rfl

/-- `run_flash` gets the same answer. -/
theorem cli_snoc {pc pc' : RunPc} {a : Answer}
    (h : (runFlash fw namePrefix target dry).exec (answers ls) (.connecting 1) = some pc)
    (hst : pc.answer fw dry a = some pc') :
    (runFlash fw namePrefix target dry).exec (answers (ls ++ [.answer a])) (.connecting 1) =
      some pc' := by
  rw [answers_snoc]
  exact Lib.Lts.exec_snoc.mpr ⟨pc, h, hst⟩

theorem transferred_quiet (hl : ∀ acked, l ≠ .answer (.stop (.ok acked))) :
    Transferred fw (ls ++ [l]) ↔ Transferred fw ls := by
  rw [transferred_snoc]
  refine ⟨fun h => ?_, .inl⟩
  rcases h with h | ⟨⟨acked, rfl⟩, -⟩
  · exact h
  · exact absurd rfl (hl acked)

section

variable {a : Answer} {budget current : Nat}

/-- The answer to the connection. -/
theorem Agree.connecting (h : Agree fw dry namePrefix target ls s) (heq : s.pc = .connecting budget)
    (hst : s.answer fw dry a = some s') :
    Agree fw dry namePrefix target (ls ++ [.answer a]) s' := by
  obtain ⟨hrep, hpc⟩ := h
  rw [heq] at hpc
  obtain ⟨hshow, hnext, hcli⟩ := hpc
  unfold OpFlash.answer at hst
  rw [heq] at hst
  cases a with
  | connect r =>
    cases r with
    | ok mtu =>
      cases hst
      refine ⟨by simp [hrep, banner, transferred_quiet], ?_⟩
      exact ⟨by simp [hshow, banner], by rw [nextSector_snoc]; exact hnext, cli_snoc hcli rfl⟩
    | error e =>
      dsimp only at hst
      by_cases he : e.caught
      · rw [if_pos he] at hst
        cases budget with
        | zero =>
          cases hst
          exact .over (by simp [hrep, banner, transferred_quiet]) (by simp [hshow, banner])
            (.inl rfl)
        | succ budget =>
          cases hst
          refine ⟨by simp [hrep, banner, transferred_quiet], ?_⟩
          refine ⟨by simp [hshow, banner], by rw [nextSector_snoc]; exact hnext, ?_⟩
          exact cli_snoc hcli (by simp [RunPc.answer, he])
      · rw [if_neg he] at hst
        cases hst
        exact .over (by simp [hrep, banner, transferred_quiet]) (by simp [hshow, banner]) (.inl rfl)
  | slept | start | sector | stop => cases hst

/-- The answer to the Start. -/
theorem Agree.starting (h : Agree fw dry namePrefix target ls s) (heq : s.pc = .starting)
    (hst : s.answer fw dry a = some s') :
    Agree fw dry namePrefix target (ls ++ [.answer a]) s' := by
  obtain ⟨hrep, hpc⟩ := h
  rw [heq] at hpc
  obtain ⟨hshow, hnext, hcli⟩ := hpc
  unfold OpFlash.answer at hst
  rw [heq] at hst
  cases a with
  | start r =>
    cases r with
    | ok u =>
      dsimp only at hst
      by_cases hd : dry
      · rw [if_pos hd] at hst
        cases hst
        exact ⟨by simp [hrep, banner, transferred_quiet], by simp [hshow, banner], hd⟩
      · rw [if_neg hd] at hst
        cases hst
        have hnext' : nextSector (ls ++ [.answer (.start (.ok u))]) = 0 := by
          rw [nextSector_snoc]
          exact hnext
        have hcli' := cli_snoc hcli (a := .start (.ok u)) rfl
        rw [if_neg hd, ← hnext'] at hcli'
        rw [← hnext']
        refine Agree.transferLoop ?_ ?_ (by simpa using hd) hcli'
        · simp [hrep, banner, transferred_quiet]
        · simp [hshow, banner]
    | error e =>
      cases hst
      exact .over (by simp [hrep, transferred_quiet]) hshow (.inr ⟨_, rfl⟩)
  | connect | slept | sector | stop => cases hst

/-- The answer to a sector. -/
theorem Agree.sending (h : Agree fw dry namePrefix target ls s) (heq : s.pc = .sending current)
    (hst : s.answer fw dry a = some s') :
    Agree fw dry namePrefix target (ls ++ [.answer a]) s' := by
  obtain ⟨hrep, hpc⟩ := h
  rw [heq] at hpc
  obtain ⟨hshow, hd, hcli⟩ := hpc
  unfold OpFlash.answer at hst
  rw [heq] at hst
  cases a with
  | sector r =>
    cases r with
    | confirmed sector =>
      cases hst
      have hnext : nextSector (ls ++ [.answer (.sector (.confirmed sector))]) = sector + 1 := by
        rw [nextSector_snoc]
      have hcli' := cli_snoc hcli (a := .sector (.confirmed sector)) rfl
      rw [← hnext] at hcli' ⊢
      refine Agree.transferLoop ?_ ?_ hd hcli'
      · simp [hrep, banner, transferred_quiet]
      · simp [hshow, banner]
    | ackTimeout =>
      cases hst
      exact .over (by simp [hrep, banner, transferred_quiet]) (by simp [hshow, banner])
        (.inr ⟨_, rfl⟩)
    | raised e =>
      cases hst
      exact .over (by simp [hrep, transferred_quiet]) hshow (.inr ⟨_, rfl⟩)
  | connect | slept | start | stop => cases hst

/-- The answer to the Stop after the last sector. -/
theorem Agree.stopping (h : Agree fw dry namePrefix target ls s) (heq : s.pc = .stopping)
    (hst : s.answer fw dry a = some s') :
    Agree fw dry namePrefix target (ls ++ [.answer a]) s' := by
  obtain ⟨hrep, hpc⟩ := h
  rw [heq] at hpc
  obtain ⟨hshow, hd, hle, hcli⟩ := hpc
  unfold OpFlash.answer at hst
  rw [heq] at hst
  cases a with
  | stop r =>
    cases r with
    | ok acked =>
      cases hst
      have hshow' : ShowsSuccess ((s.push (.done true false)).push (.phase .reboot)).pushed := by
        simp [banner]
      have htr : Transferred fw (ls ++ [.answer (.stop (.ok acked))]) :=
        transferred_snoc.mpr (.inr ⟨⟨acked, rfl⟩, hle⟩)
      exact Agree.pollLoop ⟨fun _ => ⟨hd, htr⟩, fun _ => hshow'⟩ hshow' (cli_snoc hcli rfl)
    | error e =>
      cases hst
      exact .over (by simp [hrep, transferred_quiet]) hshow (.inr ⟨_, rfl⟩)
  | connect | slept | start | sector => cases hst

/-- The answer to the Stop of a dry run. -/
theorem Agree.dryStopping (h : Agree fw dry namePrefix target ls s) (heq : s.pc = .dryStopping)
    (hst : s.answer fw dry a = some s') :
    Agree fw dry namePrefix target (ls ++ [.answer a]) s' := by
  obtain ⟨hrep, hpc⟩ := h
  rw [heq] at hpc
  obtain ⟨hshow, hd⟩ := hpc
  unfold OpFlash.answer at hst
  rw [heq] at hst
  cases a with
  | stop r =>
    cases r with
    | ok acked =>
      cases hst
      have hshow' : ¬ShowsSuccess (s.push (.done true true)).pushed := by simp [hshow, banner]
      exact .over (by simp [hshow', hd]) hshow' (.inr ⟨_, rfl⟩)
    | error e =>
      cases hst
      exact .over (by simp [hshow, hd]) hshow (.inr ⟨_, rfl⟩)
  | connect | slept | start | sector => cases hst

/-- The answer to the Stop of `_abort`. -/
theorem Agree.aborting (h : Agree fw dry namePrefix target ls s) (heq : s.pc = .aborting)
    (hst : s.answer fw dry a = some s') :
    Agree fw dry namePrefix target (ls ++ [.answer a]) s' := by
  obtain ⟨hrep, hpc⟩ := h
  rw [heq] at hpc
  obtain ⟨hshow, hlt⟩ := hpc
  unfold OpFlash.answer at hst
  rw [heq] at hst
  cases a with
  | stop r =>
    cases hst
    have hnot : ¬totalSectors fw ≤ nextSector ls := Nat.not_le_of_lt hlt
    exact .over (by simp [hrep, banner, transferred_snoc, hnot]) (by simp [hshow, banner])
      (.inr ⟨_, rfl⟩)
  | connect | slept | start | sector => cases hst

/-- An answer. -/
theorem Agree.answer (h : Agree fw dry namePrefix target ls s)
    (hst : s.answer fw dry a = some s') :
    Agree fw dry namePrefix target (ls ++ [.answer a]) s' := by
  cases heq : s.pc with
  | connecting budget => exact h.connecting heq hst
  | retrying budget =>
    obtain ⟨hrep, hpc⟩ := h
    rw [heq] at hpc
    obtain ⟨hshow, hnext, hcli⟩ := hpc
    unfold OpFlash.answer at hst
    rw [heq] at hst
    cases a with
    | slept =>
      cases hst
      exact Agree.connectLoop (by simp [hrep, transferred_quiet]) hshow
        (by rw [nextSector_snoc]; exact hnext) (cli_snoc hcli rfl)
    | connect | start | sector | stop => cases hst
  | starting => exact h.starting heq hst
  | dryStopping => exact h.dryStopping heq hst
  | sending current => exact h.sending heq hst
  | aborting => exact h.aborting heq hst
  | stopping => exact h.stopping heq hst
  | polling | closing | returned =>
    unfold OpFlash.answer at hst
    rw [heq] at hst
    cases hst

end

/-- A step that is no answer: `run_flash` goes on as before. -/
theorem Agree.quiet (h : Agree fw dry namePrefix target ls s) (hl : ∀ a, l ≠ .answer a) :
    Agree fw dry namePrefix target (ls ++ [l]) s := by
  have hans : answers (ls ++ [l]) = answers ls := by
    cases l with
    | answer a => exact absurd rfl (hl a)
    | poll | disconnected | cancel => exact answers_snoc
  have hnext : nextSector (ls ++ [l]) = nextSector ls := by
    cases l with
    | answer a => exact absurd rfl (hl a)
    | poll | disconnected | cancel => exact nextSector_snoc
  constructor
  · rw [transferred_quiet fun acked => hl _]
    exact h.reported
  · rw [hans, hnext]
    exact h.pc

/-- Every step. -/
theorem Agree.step (h : Agree fw dry namePrefix target ls s)
    (hst : OpFlash.step fw mac dry l s = some s') :
    Agree fw dry namePrefix target (ls ++ [l]) s' := by
  cases l with
  | answer a => exact h.answer hst
  | poll r =>
    obtain ⟨hrep, hpc⟩ := h.quiet (l := .poll r) nofun
    simp only [OpFlash.step] at hst
    split at hst
    next left heq =>
      rw [heq] at hpc
      obtain ⟨hshow, hcli⟩ := hpc
      split at hst
      · cases hst
        have hshow' : ShowsSuccess (s.push .rebootOk).pushed := by simp [banner]
        exact ⟨by simp [hrep.mp hshow, hshow'], fun _ => hcli⟩
      · cases hst
        exact Agree.pollLoop hrep hshow hcli
    · cases hst
  | disconnected =>
    obtain ⟨hrep, hpc⟩ := h.quiet (l := .disconnected) nofun
    simp only [OpFlash.step] at hst
    split at hst
    next heq =>
      rw [heq] at hpc
      cases hst
      exact ⟨hrep, hpc⟩
    next e heq =>
      rw [heq] at hpc
      cases hst
      exact ⟨by simp [hrep, banner], fun hx => hpc (by simpa [banner] using hx)⟩
    · cases hst
  | cancel =>
    cases hst
    obtain ⟨hrep, hpc⟩ := h.quiet (l := .cancel) nofun
    exact ⟨hrep, hpc⟩

theorem Agree.exec {cancel : Bool}
    (h : (opFlash fw mac dry).exec ls (.start fw cancel) = some s) :
    Agree fw dry namePrefix target ls s := by
  induction ls using List.reverseRecOn generalizing s with
  | nil =>
    cases h
    exact Agree.start
  | append_singleton ls l ih =>
    obtain ⟨s₁, h1, hst⟩ := Lib.Lts.exec_snoc.mp h
    exact (ih h1).step hst

/-! ## The verdicts -/

/-- After a complete transfer `run_flash` reports what the scans show. -/
theorem accepts_iff {w : Watch}
    (h : (runFlash fw namePrefix target dry).exec (answers ls) (.connecting 1) = some .watching) :
    Accepts fw namePrefix target dry ls w ↔ RebootSeen namePrefix target w := by
  rw [← verifyReboot_zero_iff]
  have hstep : Accepts fw namePrefix target dry ls w ↔
      RunPc.step fw namePrefix target dry (.watch w) .watching = some (.returned 0) := by
    unfold Accepts
    rw [Lib.Lts.exec_snoc, h]
    exact ⟨fun ⟨_, hx, hst⟩ => Option.some.inj hx ▸ hst, fun hst => ⟨_, rfl, hst⟩⟩
  rw [hstep]
  cases hv : verifyReboot namePrefix target w with
  | ok code => simp [RunPc.step, hv]
  | error e => cases e <;> simp [RunPc.step, hv, RunPc.except, Exc.caught]

/-- **When the GUI and `run_flash` agree**: SUCCESS of the GUI is what `run_flash` reports for the
same answers and the scans `w`, if and only if it is a dry run, the transfer or its Stop does not
come to its end, or the scans show a reboot. -/
theorem success_accepted_iff {cancel : Bool} (w : Watch)
    (h : (opFlash fw mac dry).exec ls (.start fw cancel) = some s) :
    (ShowsSuccess s.pushed → Accepts fw namePrefix target dry ls w) ↔
      dry = true ∨ ¬Transferred fw ls ∨ RebootSeen namePrefix target w := by
  have hag : Agree fw dry namePrefix target ls s := Agree.exec h
  by_cases hshow : ShowsSuccess s.pushed
  · obtain ⟨hd, htr⟩ := hag.reported.mp hshow
    have hcli : (runFlash fw namePrefix target dry).exec (answers ls) (.connecting 1) =
        some .watching := by
      have hpc := hag.pc
      split at hpc
      all_goals first | exact hpc hshow | exact hpc.2 | exact absurd hshow hpc.1
    rw [accepts_iff hcli]
    simp [hshow, hd, htr]
  · have hno : dry = true ∨ ¬Transferred fw ls := by
      by_contra hx
      rw [not_or, Bool.not_eq_true] at hx
      exact hshow (hag.reported.mpr ⟨hx.1, not_not.mp hx.2⟩)
    refine ⟨fun _ => ?_, fun _ hx => absurd hx hshow⟩
    rcases hno with hd | htr
    · exact .inl hd
    · exact .inr (.inl htr)

/-- A transfer of three bytes that comes to its end. -/
def threeByteFlash : List FlashLabel :=
  [.answer (.connect (.ok 23)), .answer (.start (.ok ())), .answer (.sector (.confirmed 0)),
    .answer (.stop (.ok true))]

theorem threeByteFlash_shows : ∃ s,
    (opFlash [1, 2, 3] ['a', '1'] false).exec threeByteFlash (.start [1, 2, 3] false) = some s ∧
      ShowsSuccess s.pushed :=
  ⟨_, rfl, .done true false, by decide +kernel, .inl rfl⟩

/-- A scan that sees the device. -/
def oneDevice : Scan := .ok [⟨['n'], ['a', ':', '1'], List.cons_ne_nil _ _⟩]

/-- The device is gone in the second probe of the watch. -/
def gapWatched : Watch := ⟨oneDevice, oneDevice, [oneDevice, .ok [], oneDevice], oneDevice⟩

theorem success_accepted_threeBytes :
    Accepts [1, 2, 3] ['n'] none false threeByteFlash gapWatched := by
  obtain ⟨s, hs, hshow⟩ := threeByteFlash_shows
  have hseen : RebootSeen ['n'] none gapWatched :=
    ⟨⟨true, rfl⟩, .inl ⟨⟨true, rfl⟩, by decide +kernel⟩⟩
  exact (success_accepted_iff gapWatched hs).mpr (.inr (.inr hseen)) hshow

/-- Every scan after the transfer sees the device. -/
def allVisible : Watch := ⟨oneDevice, oneDevice, [oneDevice, oneDevice], oneDevice⟩

theorem success_without_reboot :
    ¬∀ (fw : List UInt8) (mac : List Char) (ls : List FlashLabel) (s : OpFlash) (w : Watch),
      (opFlash fw mac false).exec ls (.start fw false) = some s → ShowsSuccess s.pushed →
        Accepts fw ['n'] none false ls w := by
  intro hall
  obtain ⟨s, hs, hshow⟩ := threeByteFlash_shows
  have hagree := hall _ _ _ _ allVisible hs hshow
  have hcli : (runFlash [1, 2, 3] ['n'] none false).exec (answers threeByteFlash) (.connecting 1) =
      some .watching := rfl
  refine not_rebootSeen_of_visible rfl ?_ ((accepts_iff hcli).mp hagree)
  intro probe hprobe
  have heq : probe = oneDevice := by simpa [allVisible] using hprobe
  rw [heq]
  rfl

end BleOta.Gui
