import BleOta.Host.Flash

/-!
# The scans that `run_flash` takes for a reboot

* `saw`, `sightings`: what a scan, and what the probes of the watch show.
* `RebootSeen`: the scans show a gap with the device after it, or the device is gone at the end.
* `verifyReboot_zero_iff`: exactly then the exit code is 0.
-/

namespace BleOta.Host

variable (namePrefix : List Char) (mac : Option (List Char))

/-- Whether the scan shows the device. -/
def saw (scan : Scan) : Except Exc Bool := (findDeviceFast namePrefix mac scan).map Option.isSome

/-- The exception of a scan. -/
def excOf : Scan → Option Exc
  | .ok _ => none
  | .error e => some e

/-- What the probes show, up to the first one that raises. -/
def sightings : List Scan → List Bool
  | [] => []
  | probe :: probes => match saw namePrefix mac probe with
    | .ok b => b :: sightings probes
    | .error _ => []

/-- The baseline has a result, and some probe misses the device and a later one sees it. -/
def GapSeen (w : Watch) : Prop :=
  (∃ b, saw namePrefix mac w.baseline = .ok b) ∧
    [false, true].Sublist (sightings namePrefix mac w.probes)

/-- The device is there before the watch and not after it, and the watch ends without an exception
that its handler does not take. -/
def GoneAtEnd (w : Watch) : Prop :=
  saw namePrefix mac w.pre = .ok true ∧ saw namePrefix mac w.post = .ok false ∧
    ∀ e, (w.baseline :: w.probes).findSome? excOf = some e → e.caughtInWatch = true

/-- The scans show a reboot. -/
def RebootSeen (w : Watch) : Prop :=
  (∃ b, saw namePrefix mac w.pre = .ok b) ∧
    (GapSeen namePrefix mac w ∨ GoneAtEnd namePrefix mac w)

variable {namePrefix mac} {scan : Scan} {probes : List Scan}

variable (namePrefix mac) in
/-- The cases of a scan. -/
theorem findDeviceFast_cases (scan : Scan) :
    (∃ e, excOf scan = some e ∧ findDeviceFast namePrefix mac scan = .error e ∧
      saw namePrefix mac scan = .error e) ∨
    (excOf scan = none ∧ ∃ back, findDeviceFast namePrefix mac scan = .ok back ∧
      saw namePrefix mac scan = .ok back.isSome) := by
  cases scan with
  | error e => exact .inl ⟨e, rfl, rfl, rfl⟩
  | ok found => exact .inr ⟨rfl, _, rfl, rfl⟩

/-- The watch finds the device after a gap (or one probe is enough, if the gap was before them), or
it ends with the first exception, or with `None`. -/
theorem watchLoop_cases (seenGap : Bool) (probes : List Scan) :
    ((∃ back, watchLoop namePrefix mac seenGap probes = .ok (some back)) ∧
      ((if seenGap then [true] else [false, true]).Sublist (sightings namePrefix mac probes))) ∨
    (¬(if seenGap then [true] else [false, true]).Sublist (sightings namePrefix mac probes) ∧
      watchLoop namePrefix mac seenGap probes =
        match probes.findSome? excOf with
        | some e => .error e
        | none => .ok none) := by
  induction probes generalizing seenGap with
  | nil =>
    refine .inr ⟨?_, rfl⟩
    cases seenGap <;> simp [sightings]
  | cons probe probes ih =>
    rcases findDeviceFast_cases namePrefix mac probe with
      ⟨e, hexc, hfind, hsaw⟩ | ⟨hexc, back, hfind, hsaw⟩
    · refine .inr ⟨?_, ?_⟩
      · cases seenGap <;> simp [sightings, hsaw]
      · simp [watchLoop, hfind, hexc, bind, Except.bind]
    · have hfirst : (probe :: probes).findSome? excOf = probes.findSome? excOf := by
        simp [hexc]
      rw [hfirst]
      cases back with
      | none =>
        have hloop : watchLoop namePrefix mac seenGap (probe :: probes) =
            watchLoop namePrefix mac true probes := by
          simp [watchLoop, hfind, bind, Except.bind]
        have hsub : (if seenGap then [true] else [false, true]).Sublist
              (sightings namePrefix mac (probe :: probes)) ↔
            [true].Sublist (sightings namePrefix mac probes) := by
          cases seenGap <;> simp [sightings, hsaw]
        rw [hloop, hsub]
        exact ih true
      | some back =>
        cases seenGap with
        | true =>
          refine .inl ⟨⟨back, ?_⟩, ?_⟩
          · simp [watchLoop, hfind, bind, Except.bind, pure, Except.pure]
          · simp [sightings, hsaw]
        | false =>
          have hloop : watchLoop namePrefix mac false (probe :: probes) =
              watchLoop namePrefix mac false probes := by
            simp [watchLoop, hfind, bind, Except.bind]
          have hsub : [false, true].Sublist (sightings namePrefix mac (probe :: probes)) ↔
              [false, true].Sublist (sightings namePrefix mac probes) := by
            simp [sightings, hsaw, List.cons_sublist_cons']
          have hi := ih false
          rw [hloop]
          simpa only [if_neg Bool.false_ne_true, hsub] using hi

/-- A device that every scan sees is not taken for one that has rebooted. -/
theorem not_rebootSeen_of_visible {w : Watch} (hpost : saw namePrefix mac w.post = .ok true)
    (hprobes : ∀ probe ∈ w.probes, saw namePrefix mac probe = .ok true) :
    ¬RebootSeen namePrefix mac w := by
  have hall : ∀ probes : List Scan, (∀ probe ∈ probes, saw namePrefix mac probe = .ok true) →
      false ∉ sightings namePrefix mac probes := by
    intro probes
    induction probes with
    | nil => simp [sightings]
    | cons probe probes ih =>
      intro h
      have hp := h probe (List.mem_cons_self ..)
      have hps := ih fun p hp => h p (List.mem_cons_of_mem _ hp)
      simp [sightings, hp, hps]
  rintro ⟨-, ⟨-, hsub⟩ | ⟨-, hgone, -⟩⟩
  · exact hall _ hprobes (hsub.subset (List.mem_cons_self ..))
  · rw [hpost] at hgone
    cases hgone

variable (namePrefix mac) in
theorem waitRebootWithGap_cases (w : Watch) :
    (GapSeen namePrefix mac w ∧
      ∃ back, waitRebootWithGap namePrefix mac w.baseline w.probes = .ok (some back)) ∨
    (¬GapSeen namePrefix mac w ∧ waitRebootWithGap namePrefix mac w.baseline w.probes =
      match (w.baseline :: w.probes).findSome? excOf with
      | some e => .error e
      | none => .ok none) := by
  rcases findDeviceFast_cases namePrefix mac w.baseline with
    ⟨e, hexc, hfind, hsaw⟩ | ⟨hexc, back, hfind, hsaw⟩
  · refine .inr ⟨?_, ?_⟩
    · simp [GapSeen, hsaw]
    · simp [waitRebootWithGap, hfind, hexc, bind, Except.bind]
  · have hwait : waitRebootWithGap namePrefix mac w.baseline w.probes =
        watchLoop namePrefix mac false w.probes := by
      simp [waitRebootWithGap, hfind, bind, Except.bind]
    have hfirst : (w.baseline :: w.probes).findSome? excOf = w.probes.findSome? excOf := by
      simp [hexc]
    have hgap : GapSeen namePrefix mac w ↔
        [false, true].Sublist (sightings namePrefix mac w.probes) := by
      simp [GapSeen, hsaw]
    rw [hwait, hfirst, hgap]
    exact (watchLoop_cases false w.probes).imp_left And.symm

variable (namePrefix mac) in
/-- The watch under its handler: a gap; no gap; or an exception that goes on. -/
theorem gapWatch_cases (w : Watch) :
    (GapSeen namePrefix mac w ∧
      ∃ back, gapWatch namePrefix mac w.baseline w.probes = .ok (some back)) ∨
    (¬GapSeen namePrefix mac w ∧ gapWatch namePrefix mac w.baseline w.probes = .ok none ∧
      ∀ e, (w.baseline :: w.probes).findSome? excOf = some e → e.caughtInWatch = true) ∨
    (¬GapSeen namePrefix mac w ∧ ¬GoneAtEnd namePrefix mac w ∧
      ∃ e, gapWatch namePrefix mac w.baseline w.probes = .error e) := by
  unfold gapWatch
  rcases waitRebootWithGap_cases namePrefix mac w with
    ⟨hgap, back, hwait⟩ | ⟨hgap, hwait⟩
  · exact .inl ⟨hgap, back, by rw [hwait]⟩
  cases hfirst : (w.baseline :: w.probes).findSome? excOf with
  | none =>
    rw [hfirst] at hwait
    exact .inr (.inl ⟨hgap, by rw [hwait], nofun⟩)
  | some e =>
    rw [hfirst] at hwait
    rw [hwait]
    by_cases hc : e.caughtInWatch = true
    · refine .inr (.inl ⟨hgap, if_pos hc, fun e' he' => ?_⟩)
      cases he'
      exact hc
    · refine .inr (.inr ⟨hgap, ?_, e, if_neg hc⟩)
      rintro ⟨-, -, h⟩
      exact hc (h e hfirst)

/-- **The exit code 0**, once the transfer is complete: exactly for a reboot in the scans. -/
theorem verifyReboot_zero_iff {w : Watch} :
    verifyReboot namePrefix mac w = .ok 0 ↔ RebootSeen namePrefix mac w := by
  rcases findDeviceFast_cases namePrefix mac w.pre with
    ⟨e, -, hpre, hsaw⟩ | ⟨-, pre, hpre, hsaw⟩
  · simp [verifyReboot, RebootSeen, hpre, hsaw, bind, Except.bind]
  rcases gapWatch_cases namePrefix mac w with
    ⟨hgap, back, hwait⟩ | ⟨hgap, hwait, hcaught⟩ | ⟨hgap, hgone, e, hwait⟩
  · simp [verifyReboot, RebootSeen, hpre, hsaw, hwait, hgap, bind, Except.bind, pure, Except.pure]
  · -- no gap: the last scan decides
    have hseen : RebootSeen namePrefix mac w ↔
        pre.isSome = true ∧ saw namePrefix mac w.post = .ok false := by
      simp only [RebootSeen, GoneAtEnd, hsaw, hgap]
      simpa using fun _ _ => hcaught
    rw [hseen]
    rcases findDeviceFast_cases namePrefix mac w.post with
      ⟨e, -, hpost, hsaw'⟩ | ⟨-, post, hpost, hsaw'⟩
    · simp [verifyReboot, hpre, hwait, hpost, hsaw', bind, Except.bind]
    · cases pre <;> cases post <;>
        simp [verifyReboot, hpre, hwait, hpost, hsaw', bind, Except.bind, pure, Except.pure]
  · simp [verifyReboot, RebootSeen, hpre, hsaw, hwait, hgap, hgone, bind, Except.bind]

end BleOta.Host
