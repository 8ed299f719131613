import BleOta.Host.Reboot

/-!
# The verdict against the order of the scans

The scans after the transfer are taken at four places: before the watch, its baseline, its loop, and
after it. Here they are one sequence, and every one of them has a result.

* `Watch.scans`: the sequence; `verdict`: the exit code of `run_flash` for it.
* `FollowsOrder`: the exit code is 0 if the sequence has a gap, and 1 if it shows the device only.
* `followsOrder_iff`: for which sequences it is so.
-/

namespace BleOta.Host

variable {namePrefix : List Char} {mac : Option (List Char)} {w : Watch} {fw : List UInt8}
  {dry : Bool}

/-- The scans in their order. -/
def Watch.scans (w : Watch) : List Scan := w.pre :: w.baseline :: w.probes ++ [w.post]

/-- Every scan has a result. -/
def AllAnswer (namePrefix : List Char) (mac : Option (List Char)) (scans : List Scan) : Prop :=
  ∀ scan ∈ scans, ∃ b, saw namePrefix mac scan = .ok b

/-- `run_flash` goes on with the scans `w` after a complete transfer. -/
def verdict (fw : List UInt8) (namePrefix : List Char) (mac : Option (List Char)) (dry : Bool)
    (w : Watch) : Option RunPc :=
  (runFlash fw namePrefix mac dry).step (.watch w) .watching

/-- A scan that sees the device, a later one that does not and a still later one that does make the
exit code 0; if all of them see the device it is 1. -/
def FollowsOrder (fw : List UInt8) (namePrefix : List Char) (mac : Option (List Char)) (dry : Bool)
    (w : Watch) : Prop :=
  ([true, false, true].Sublist (sightings namePrefix mac w.scans) →
    verdict fw namePrefix mac dry w = some (.returned 0)) ∧
  ((∀ scan ∈ w.scans, saw namePrefix mac scan = .ok true) →
    verdict fw namePrefix mac dry w = some (.returned 1))

/-! ## Sequences of sightings -/

/-- A pattern ends before the last element, or at it. -/
theorem snoc_sublist_snoc {l l' : List Bool} {a b : Bool} :
    (l ++ [a]).Sublist (l' ++ [b]) ↔ (l ++ [a]).Sublist l' ∨ a = b ∧ l.Sublist l' := by
  rw [← List.reverse_sublist, List.reverse_append, List.reverse_append]
  simp only [List.reverse_singleton, List.singleton_append, List.cons_sublist_cons',
    List.reverse_sublist]
  rw [← List.reverse_sublist, List.reverse_cons, List.reverse_reverse, List.reverse_reverse]

/-- **The pattern and the evidence**: the scan before the watch, the baseline, the probes of the
loop, the scan after it. -/
theorem gap_implies_iff {pre baseline post : Bool} {probes : List Bool} :
    ([true, false, true].Sublist (pre :: baseline :: probes ++ [post]) →
        [false, true].Sublist probes ∨ (pre = true ∧ post = false)) ↔
      post = false ∨ [false, true].Sublist probes ∨
        ¬[true, false].Sublist (pre :: baseline :: probes) := by
  constructor
  · intro h
    by_contra hno
    obtain ⟨hpost, hprobes, hgap⟩ : post = true ∧ ¬[false, true].Sublist probes ∧
        [true, false].Sublist (pre :: baseline :: probes) := by
      simpa [not_or] using hno
    subst hpost
    have hall : ([true, false] ++ [true]).Sublist (pre :: baseline :: probes ++ [true]) :=
      hgap.append (.refl _)
    rcases h hall with hp | ⟨-, hp⟩
    · exact hprobes hp
    · cases hp
  · rintro (rfl | hp | hno) h
    · -- the final scan misses the device: the pattern is before it
      have hbefore : [true, false, true].Sublist (pre :: baseline :: probes) :=
        (snoc_sublist_snoc (l := [true, false]).mp h).resolve_right nofun
      cases pre with
      | true => exact .inr ⟨rfl, rfl⟩
      | false =>
        have hb : [true, false, true].Sublist (baseline :: probes) := by
          simpa [List.cons_sublist_cons'] using hbefore
        cases baseline with
        | true => exact .inl (List.cons_sublist_cons.mp hb)
        | false =>
          have hps : [true, false, true].Sublist probes := by
            simpa [List.cons_sublist_cons'] using hb
          exact .inl ((List.sublist_cons_self true [false, true]).trans hps)
    · exact .inl hp
    · refine absurd ?_ hno
      rcases snoc_sublist_snoc (l := [true, false]).mp h with hp | ⟨-, hp⟩
      · exact (List.sublist_append_left [true, false] [true]).trans hp
      · exact hp

/-! ## Scans that all have a result -/

theorem AllAnswer.cons {scan : Scan} {scans : List Scan}
    (h : AllAnswer namePrefix mac (scan :: scans)) :
    (∃ b, saw namePrefix mac scan = .ok b) ∧ AllAnswer namePrefix mac scans :=
  ⟨h scan (List.mem_cons_self ..), fun s hs => h s (List.mem_cons_of_mem _ hs)⟩

theorem sightings_cons {scan : Scan} {b : Bool} (h : saw namePrefix mac scan = .ok b)
    (scans : List Scan) :
    sightings namePrefix mac (scan :: scans) = b :: sightings namePrefix mac scans := by
  simp [sightings, h]

theorem sightings_append {scans : List Scan} (h : AllAnswer namePrefix mac scans)
    (scans' : List Scan) : sightings namePrefix mac (scans ++ scans') =
      sightings namePrefix mac scans ++ sightings namePrefix mac scans' := by
  induction scans with
  | nil => rfl
  | cons scan scans ih =>
    obtain ⟨⟨b, hb⟩, h⟩ := h.cons
    rw [List.cons_append, sightings_cons hb, sightings_cons hb, ih h, List.cons_append]

theorem excOf_of_saw {scan : Scan} {b : Bool} (h : saw namePrefix mac scan = .ok b) :
    excOf scan = none := by
  cases scan with
  | error e => cases h
  | ok found => rfl

theorem AllAnswer.findSome {scans : List Scan} (h : AllAnswer namePrefix mac scans) :
    scans.findSome? excOf = none := by
  rw [List.findSome?_eq_none_iff]
  intro scan hscan
  obtain ⟨b, hb⟩ := h scan hscan
  exact excOf_of_saw hb

theorem AllAnswer.watch (h : AllAnswer namePrefix mac w.scans) :
    AllAnswer namePrefix mac (w.baseline :: w.probes) :=
  fun scan hscan => h scan (List.mem_cons_of_mem _ (List.mem_append_left _ hscan))

/-- Then `run_flash` returns 0 or 1. -/
theorem verifyReboot_answers (h : AllAnswer namePrefix mac w.scans) :
    verifyReboot namePrefix mac w = .ok 0 ∨ verifyReboot namePrefix mac w = .ok 1 := by
  obtain ⟨bpre, hpre⟩ := h w.pre (by simp [Watch.scans])
  obtain ⟨bpost, hpost⟩ := h w.post (by simp [Watch.scans])
  obtain ⟨back, hback⟩ : ∃ back, gapWatch namePrefix mac w.baseline w.probes = .ok back := by
    rcases waitRebootWithGap_cases namePrefix mac w with ⟨-, back, hwait⟩ | ⟨-, hwait⟩
    · exact ⟨_, by rw [gapWatch, hwait]⟩
    · rw [h.watch.findSome] at hwait
      exact ⟨_, by rw [gapWatch, hwait]⟩
  rcases findDeviceFast_cases namePrefix mac w.pre with ⟨e, -, -, hsaw⟩ | ⟨-, pre, hfind, -⟩
  · rw [hpre] at hsaw
    cases hsaw
  rcases findDeviceFast_cases namePrefix mac w.post with ⟨e, -, -, hsaw⟩ | ⟨-, post, hfind', -⟩
  · rw [hpost] at hsaw
    cases hsaw
  cases back <;> cases pre <;> cases post <;>
    simp [verifyReboot, hfind, hfind', hback, bind, Except.bind, pure, Except.pure]

/-- The exit code is the one of `verifyReboot`. -/
theorem verdict_eq (h : AllAnswer namePrefix mac w.scans) (code : Nat) :
    verdict fw namePrefix mac dry w = some (.returned code) ↔
      verifyReboot namePrefix mac w = .ok code := by
  unfold verdict runFlash
  dsimp only [RunPc.step]
  rcases verifyReboot_answers h with hv | hv
  · rw [hv]
    simp
  · rw [hv]
    simp

/-- The evidence of a reboot, if every scan has a result. -/
theorem rebootSeen_iff {pre post : Bool} (h : AllAnswer namePrefix mac w.scans)
    (hpre : saw namePrefix mac w.pre = .ok pre) (hpost : saw namePrefix mac w.post = .ok post) :
    RebootSeen namePrefix mac w ↔
      [false, true].Sublist (sightings namePrefix mac w.probes) ∨ (pre = true ∧ post = false) := by
  have hbase := (AllAnswer.cons h.watch).1
  have hexc := h.watch.findSome
  simp [RebootSeen, GapSeen, GoneAtEnd, hpre, hpost, hbase, hexc]

theorem saw_ok_iff {scan : Scan} {b b' : Bool} (h : saw namePrefix mac scan = .ok b) :
    saw namePrefix mac scan = .ok b' ↔ b = b' := by
  rw [h]
  exact ⟨Except.ok.inj, congrArg _⟩

/-- **When the exit code follows the order of the scans**: the last scan misses the device, or a
probe of the loop misses it and a later one of the loop sees it, or before the last scan none misses
it after another one has seen it. -/
theorem followsOrder_iff (h : AllAnswer namePrefix mac w.scans) :
    FollowsOrder fw namePrefix mac dry w ↔
      saw namePrefix mac w.post = .ok false ∨
      [false, true].Sublist (sightings namePrefix mac w.probes) ∨
      ¬[true, false].Sublist (sightings namePrefix mac (w.pre :: w.baseline :: w.probes)) := by
  obtain ⟨pre, hpre⟩ := h w.pre (by simp [Watch.scans])
  obtain ⟨post, hpost⟩ := h w.post (by simp [Watch.scans])
  obtain ⟨⟨baseline, hbase⟩, hprobes⟩ := AllAnswer.cons h.watch
  have hscans : sightings namePrefix mac w.scans =
      pre :: baseline :: sightings namePrefix mac w.probes ++ [post] := by
    simp only [Watch.scans, List.cons_append]
    rw [sightings_cons hpre, sightings_cons hbase, sightings_append hprobes,
      sightings_cons hpost]
    rfl
  have hvisible : (∀ scan ∈ w.scans, saw namePrefix mac scan = .ok true) →
      verdict fw namePrefix mac dry w = some (.returned 1) := by
    intro hall
    refine (verdict_eq h 1).mpr ((verifyReboot_answers h).resolve_left fun h0 => ?_)
    refine not_rebootSeen_of_visible (hall w.post (by simp [Watch.scans])) (fun probe hp => ?_)
      (verifyReboot_zero_iff.mp h0)
    exact hall probe (by simp [Watch.scans, hp])
  rw [sightings_cons hpre, sightings_cons hbase, saw_ok_iff hpost, ← gap_implies_iff, ← hscans,
    ← rebootSeen_iff h hpre hpost, ← verifyReboot_zero_iff, ← verdict_eq h 0]
  exact and_iff_left hvisible

/-- A scan that shows the device with the name `d`, and one that shows nothing. -/
def seen : Scan := .ok [⟨['d'], ['0'], by decide⟩]

/-- See `seen`. -/
def missed : Scan := .ok []

/-- The device is missed by one probe of the loop. -/
def gapInLoop : Watch := ⟨seen, seen, [seen, missed, seen], seen⟩

theorem allAnswer_ok {scans : List Scan} (h : ∀ scan ∈ scans, scan.isOk = true) :
    AllAnswer namePrefix mac scans := by
  intro scan hscan
  cases scan with
  | error e => cases h _ hscan
  | ok found => exact ⟨_, rfl⟩

theorem followsOrder_iff_gapInLoop : FollowsOrder [0] ['d'] none false gapInLoop :=
  (followsOrder_iff (allAnswer_ok (by decide))).mpr (.inr (.inl (by decide)))

/-- The device is missed by the baseline. -/
def gapAtBaseline : Watch := ⟨seen, missed, [seen, seen], seen⟩

theorem not_followsOrder : ¬∀ (fw : List UInt8) (namePrefix : List Char)
    (mac : Option (List Char)) (dry : Bool) (w : Watch), AllAnswer namePrefix mac w.scans →
      FollowsOrder fw namePrefix mac dry w := by
  intro h
  have hzero : verdict [0] ['d'] none false gapAtBaseline = some (.returned 0) :=
    (h [0] ['d'] none false gapAtBaseline (allAnswer_ok (by decide))).1 (by decide)
  have hone : verdict [0] ['d'] none false gapAtBaseline = some (.returned 1) := by decide
  rw [hone] at hzero
  cases hzero

end BleOta.Host
