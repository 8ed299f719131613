import BleOta.Hxd019.Receive
import BleOta.Lib.Chunks

/-!
# Replies in several reads

`rx_task` keeps nothing of a buffer for the next one, and `uart_read_bytes` returns what has come
when its time is over.

* `received`: the calls of the match callback for buffers that are read one after the other; they
  are a scan without state (`received_eq`).
* `Whole`: the pair that the scan of the whole reply finds is in one read.
* `received_iff`: the splits that make no difference.
-/

namespace BleOta.Hxd019

open Lib (IsChunks Cut scanChunks firstPair)

variable {κ : Type} {cbs : Callbacks κ} {cb : κ} {buf : List UInt8} {cs : List (List UInt8)}
  {b0 b1 : UInt8}

/-- The calls of the match callback for buffers that are read one after the other. -/
def received (cbs : Callbacks κ) (bufs : List (List UInt8)) : List (κ × UInt16) :=
  matchCalls (bufs.flatMap (rxPass cbs))

/-- The reads do not split the pair that the scan of the whole reply finds, or they split it and the
code group is the same pair again. -/
def Whole (cs : List (List UInt8)) : Reply → Prop
  | .bare _ => ¬Cut cs 1
  | .framed xx g => (if Plausible xx g.hi then ¬Cut cs 2 else ¬Cut cs 3) ∨
      (xx = g.hi ∧ g.hi = g.lo ∧ ¬Cut cs 3)

/-! ## The scan without state -/

/-- The code group of a pair. -/
def pairGroup (b0 b1 : UInt8) : Option UInt16 :=
  if Plausible b0 b1 then some (groupOf b0 b1) else none

theorem pairGroup_ne_zero {g : UInt16} (h : pairGroup b0 b1 = some g) : g ≠ 0 := by
  unfold pairGroup at h
  split at h
  next hp =>
    cases h
    intro h0
    have hpos := hp.2.1
    rw [h0] at hpos
    revert hpos
    decide
  · cases h

theorem scan_eq (buf : List UInt8) : (if scan buf ≠ 0 then some (scan buf) else none) =
    firstPair pairGroup buf := by
  induction buf with
  | nil => rfl
  | cons b0 buf ih =>
    cases buf with
    | nil => rfl
    | cons b1 rest =>
      by_cases hp : Plausible b0 b1
      · have hg : pairGroup b0 b1 = some (groupOf b0 b1) := if_pos hp
        rw [Lib.firstPair_some hg, scan_stop hp, if_pos (pairGroup_ne_zero hg)]
      · have hg : pairGroup b0 b1 = none := if_neg hp
        rw [Lib.firstPair_none hg, scan_skip hp, ih]

theorem received_eq (h : cbs.matchCb = some cb) :
    received cbs cs = (scanChunks pairGroup cs).map (cb, ·) := by
  unfold received
  induction cs with
  | nil => rfl
  | cons buf cs ih =>
    have hcons : scanChunks pairGroup (buf :: cs) =
        (firstPair pairGroup buf).toList ++ scanChunks pairGroup cs := by
      rw [scanChunks, List.filterMap_cons]
      cases firstPair pairGroup buf <;> rfl
    rw [List.flatMap_cons, matchCalls_append, ih, matchCalls_rxPass h, hcons, ← scan_eq buf,
      List.map_append]
    split <;> rfl

/-! ## The replies -/

theorem CodeGroup.pairGroup_eq (g : CodeGroup) : pairGroup g.hi g.lo = some g.val := by
  unfold pairGroup
  rw [if_pos g.isPlausible, g.groupOf_eq]

/-- The whole reply in one read. -/
theorem scanChunks_bytes (r : Reply) : scanChunks pairGroup [r.bytes] = [scan r.bytes] := by
  have hne : scan r.bytes ≠ 0 := by
    have hscan := scan_reply r []
    rw [List.append_nil] at hscan
    rw [hscan]
    cases r with
    | bare g => exact g.val_ne_zero
    | framed xx g =>
      dsimp only
      split
      next hp => exact pairGroup_ne_zero (if_pos hp)
      · exact g.val_ne_zero
  rw [scanChunks, List.filterMap_cons, ← scan_eq, if_pos hne]
  rfl

/-- The code group at the end of a reply is found exactly if it is not cut. -/
theorem scanChunks_group {g : CodeGroup} (h : IsChunks cs [g.hi, g.lo]) :
    (Cut cs 1 ∧ scanChunks pairGroup cs = []) ∨
      (¬Cut cs 1 ∧ scanChunks pairGroup cs = [g.val]) := by
  by_cases hcut : Cut cs 1
  · obtain ⟨cs', hcs', -, heq⟩ := Lib.scanChunks_skip (f := pairGroup) h (.inl hcut)
    exact .inl ⟨hcut, heq.trans (Lib.scanChunks_short hcs' (Nat.le_refl 1))⟩
  · obtain ⟨c, cs', hl, hcs', heq⟩ := Lib.scanChunks_found h hcut g.pairGroup_eq
    have hshort : cs'.flatten.length ≤ 1 := by
      rw [(List.append_eq_nil_iff.mp hl).2]
      exact Nat.zero_le 1
    exact .inr ⟨hcut, by rw [heq, Lib.scanChunks_short hcs' hshort]⟩

theorem pairGroup_header : pairGroup 0x30 b0 = none := if_neg header_skip

/-- A framed reply whose first pair is plausible. -/
theorem scanChunks_framed_early {xx : UInt8} {g : CodeGroup} (hp : Plausible xx g.hi)
    (h : IsChunks cs [0x30, xx, g.hi, g.lo]) :
    scanChunks pairGroup cs = [groupOf xx g.hi] ↔ Whole cs (.framed xx g) := by
  have hxx : pairGroup xx g.hi = some (groupOf xx g.hi) := if_pos hp
  obtain ⟨cs₁, hcs₁, hk₁, heq₁⟩ := Lib.scanChunks_skip h (.inr pairGroup_header)
  simp only [Whole, if_pos hp, hk₁ 0, hk₁ 1, heq₁]
  by_cases hcut : Cut cs₁ 1
  · obtain ⟨cs₂, hcs₂, hk₂, heq₂⟩ := Lib.scanChunks_skip (f := pairGroup) hcs₁ (.inl hcut)
    rw [heq₂, hk₂ 0, ← and_assoc, ← g.groupOf_eq_iff]
    rcases scanChunks_group hcs₂ with ⟨hc, hs⟩ | ⟨hc, hs⟩
    · rw [hs]
      exact iff_of_false nofun fun hor => hor.elim (absurd hcut) fun hand => hand.2 hc
    · rw [hs]
      constructor
      · intro he
        exact .inr ⟨(List.cons.inj he).1.symm, hc⟩
      · rintro (hno | ⟨he, -⟩)
        · exact absurd hcut hno
        · rw [he]
  · obtain ⟨c, cs', hl, hcs', heq⟩ := Lib.scanChunks_found hcs₁ hcut hxx
    have hshort : cs'.flatten.length ≤ 1 := by
      have hlen := congrArg List.length hl
      rw [List.length_append] at hlen
      exact Nat.le_trans (Nat.le_add_left ..) (Nat.le_of_eq hlen)
    rw [heq, Lib.scanChunks_short hcs' hshort]
    exact iff_of_true rfl (.inl hcut)

/-- A framed reply whose only plausible pair is the code group. -/
theorem scanChunks_framed {xx : UInt8} {g : CodeGroup} (hp : ¬Plausible xx g.hi)
    (h : IsChunks cs [0x30, xx, g.hi, g.lo]) :
    scanChunks pairGroup cs = [g.val] ↔ Whole cs (.framed xx g) := by
  have hxx : pairGroup xx g.hi = none := if_neg hp
  obtain ⟨cs₁, hcs₁, hk₁, heq₁⟩ := Lib.scanChunks_skip h (.inr pairGroup_header)
  obtain ⟨cs₂, hcs₂, hk₂, heq₂⟩ := Lib.scanChunks_skip hcs₁ (.inr hxx)
  simp only [Whole, if_neg hp, hk₁ 1, hk₂ 0, heq₁, heq₂]
  rcases scanChunks_group hcs₂ with ⟨hc, hs⟩ | ⟨hc, hs⟩
  · rw [hs]
    exact iff_of_false nofun fun hor => hor.elim (absurd hc) fun hand => hand.2.2 hc
  · rw [hs]
    exact iff_of_true rfl (.inl hc)

/-- What is found of a reply in several reads, against what is found of it in one. -/
theorem scanChunks_iff {r : Reply} (h : IsChunks cs r.bytes) :
    scanChunks pairGroup cs = [scan r.bytes] ↔ Whole cs r := by
  have hscan := scan_reply r []
  rw [List.append_nil] at hscan
  rw [hscan]
  cases r with
  | bare g =>
    dsimp only [Whole]
    rcases scanChunks_group h with ⟨hc, hs⟩ | ⟨hc, hs⟩
    · rw [hs]
      exact iff_of_false nofun (absurd hc)
    · rw [hs]
      exact iff_of_true rfl hc
  | framed xx g =>
    dsimp only
    by_cases hp : Plausible xx g.hi
    · rw [if_pos hp]
      exact scanChunks_framed_early hp h
    · rw [if_neg hp]
      exact scanChunks_framed hp h

/-- **When the reads make no difference**: for every reply and every way to cut it into reads that
are not empty, the calls of the match callback are the ones of a single read exactly if the cut is
`Whole`. -/
theorem received_iff (cb : κ) (learnCb : Option κ) (r : Reply) {cs : List (List UInt8)}
    (h : IsChunks cs r.bytes) :
    received ⟨some cb, learnCb⟩ cs = received ⟨some cb, learnCb⟩ [r.bytes] ↔ Whole cs r := by
  rw [← scanChunks_iff h, received_eq rfl, received_eq rfl, scanChunks_bytes]
  constructor
  · intro he
    simpa using congrArg (List.map Prod.snd) he
  · intro he
    rw [he]

/-- The reply `30 41 03 3E`. -/
abbrev reply830 : Reply := .framed 0x41 ⟨830, by decide, by decide⟩

/-- `30`, and then `41 03 3E`. -/
theorem received_iff_header : received ⟨some (), none⟩ [[0x30], [0x41, 0x03, 0x3E]] =
      received ⟨some (), none⟩ [reply830.bytes] ↔ Whole [[0x30], [0x41, 0x03, 0x3E]] reply830 :=
  received_iff () none reply830 ⟨by decide, by decide⟩

/-- `03`, and then `3E`. -/
theorem not_received : ¬∀ (r : Reply) (cs : List (List UInt8)), IsChunks cs r.bytes →
    received ⟨some (), none⟩ cs = received ⟨some (), none⟩ [r.bytes] := by
  intro h
  have h830 := h (.bare ⟨830, by decide, by decide⟩) [[0x03], [0x3E]] ⟨by decide, by decide⟩
  revert h830
  decide

end BleOta.Hxd019
