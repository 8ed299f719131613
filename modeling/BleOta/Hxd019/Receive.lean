import BleOta.Hxd019.Frame

/-!
# The receiving task (`rx_task` of `hxd019_uart.c`)

The task gives each buffer that it reads to the learn callback, and the first pair of bytes in it
that can be a code group to the match callback. Its comment names two forms of a reply to the match
command: `GG LL` and `30 XX GG LL`.

* `scan`: the loop over the buffer; `Plausible`: the pairs at which it stops (`scan_cons`).
* `rxPass`: one pass of the task, with what it calls and logs; `resultPart`, `callPart`: the parts
  of it after the scan.
* `Reply`: the replies; `decoded_iff`: the ones of which the task gets the code group.
-/

namespace BleOta.Hxd019

/-! ## The scan -/

/-- `((uint16_t)b0 << 8) | b1`. -/
def groupOf (b0 b1 : UInt8) : UInt16 := (b0.toUInt16 <<< 8) ||| b1.toUInt16

/-- The loop of `rx_task` over the buffer: the code group, or 0. -/
def scan : List UInt8 → UInt16
  | b0 :: b1 :: rest =>
    if b0 = 0x30 ∨ b0 = 0x20 ∨ b0 = 0x70 then scan (b1 :: rest)
    else
      let g := groupOf b0 b1
      if 1 ≤ g ∧ g ≤ 2047 then g else scan (b1 :: rest)
  | _ => 0

/-- The pairs at which the loop stops. -/
def Plausible (b0 b1 : UInt8) : Prop :=
  ¬(b0 = 0x30 ∨ b0 = 0x20 ∨ b0 = 0x70) ∧ 1 ≤ groupOf b0 b1 ∧ groupOf b0 b1 ≤ 2047

instance (b0 b1 : UInt8) : Decidable (Plausible b0 b1) := inferInstanceAs (Decidable (_ ∧ _ ∧ _))

/-! ## The task -/

/-- The callbacks with their contexts; `none` is `NULL`. -/
structure Callbacks (κ : Type) where
  matchCb : Option κ
  learnCb : Option κ
  deriving DecidableEq, Repr

/-- What `rx_task` calls and logs. -/
inductive RxEvent (κ : Type) where
  | learnCb (cb : κ) (data : List UInt8)
  | matchResult (group : UInt16)
  | matchCb (cb : κ) (group : UInt16)
  | learnData (n : Nat)
  deriving DecidableEq, Repr

variable {κ : Type}

/-- The part of a pass before the scan. -/
def Callbacks.learnPart (cbs : Callbacks κ) (buf : List UInt8) : List (RxEvent κ) :=
  match cbs.learnCb with
  | some cb => [.learnCb cb buf]
  | none => []

/-- The scan and what comes after it. -/
def Callbacks.matchPart (cbs : Callbacks κ) (buf : List UInt8) : List (RxEvent κ) :=
  let group := scan buf
  if group ≠ 0 then
    .matchResult group :: match cbs.matchCb with
      | some cb => [.matchCb cb group]
      | none => []
  else [.learnData buf.length]

/-- The line that `rx_task` logs after the scan. -/
def resultPart (buf : List UInt8) : List (RxEvent κ) :=
  if scan buf ≠ 0 then [.matchResult (scan buf)] else [.learnData buf.length]

/-- The call of the match callback after that. -/
def Callbacks.callPart (cbs : Callbacks κ) (buf : List UInt8) : List (RxEvent κ) :=
  if scan buf ≠ 0 then
    match cbs.matchCb with
    | some cb => [.matchCb cb (scan buf)]
    | none => []
  else []

theorem matchPart_eq (cbs : Callbacks κ) (buf : List UInt8) :
    cbs.matchPart buf = resultPart buf ++ cbs.callPart buf := by
  unfold Callbacks.matchPart resultPart Callbacks.callPart
  dsimp only
  split <;> rfl

/-- A pass of `rx_task` over what `uart_read_bytes` returned; an empty buffer is `n <= 0`. -/
def rxPass (cbs : Callbacks κ) (buf : List UInt8) : List (RxEvent κ) :=
  if buf.length = 0 then [] else cbs.learnPart buf ++ cbs.matchPart buf

/-- The calls of the match callback. -/
def matchCalls (es : List (RxEvent κ)) : List (κ × UInt16) :=
  es.filterMap fun
    | .matchCb cb group => some (cb, group)
    | _ => none

variable {cbs : Callbacks κ} {cb : κ} {buf rest : List UInt8} {b0 b1 : UInt8}

/-! ## Plausible pairs -/

theorem groupOf_toNat (b0 b1 : UInt8) : (groupOf b0 b1).toNat = b0.toNat * 256 + b1.toNat := by
  unfold groupOf
  have h0 := b0.toNat_lt
  have h1 : b1.toNat < 2 ^ 8 := b1.toNat_lt
  rw [UInt16.toNat_or, UInt16.toNat_shiftLeft, UInt8.toNat_toUInt16, UInt8.toNat_toUInt16]
  have hshift : b0.toNat <<< ((8 : UInt16).toNat % 16) % 2 ^ 16 = b0.toNat <<< 8 := by
    show b0.toNat <<< 8 % 2 ^ 16 = b0.toNat <<< 8
    rw [Nat.shiftLeft_eq]
    omega
  rw [hshift, ← Nat.shiftLeft_add_eq_or_of_lt h1, Nat.shiftLeft_eq]

/-- The bytes of a header are no high bytes of numbers up to 2047, so the first test of the loop
rejects nothing that the second one does not. -/
theorem plausible_iff :
    Plausible b0 b1 ↔ b0.toNat < 8 ∧ 1 ≤ b0.toNat * 256 + b1.toNat := by
  unfold Plausible
  rw [UInt16.le_iff_toNat_le, UInt16.le_iff_toNat_le, groupOf_toNat]
  have h1 := b1.toNat_lt
  show _ ∧ 1 ≤ _ ∧ _ ≤ 2047 ↔ _
  constructor
  · rintro ⟨-, hlo, hhi⟩
    omega
  · rintro ⟨h8, hlo⟩
    refine ⟨?_, hlo, by omega⟩
    rintro (rfl | rfl | rfl) <;> revert h8 <;> decide

theorem scan_cons : scan (b0 :: b1 :: rest) =
    if Plausible b0 b1 then groupOf b0 b1 else scan (b1 :: rest) := by
  rw [scan]
  by_cases h : b0 = 0x30 ∨ b0 = 0x20 ∨ b0 = 0x70
  · rw [if_pos h, if_neg fun hp : Plausible b0 b1 => hp.1 h]
  · rw [if_neg h]
    dsimp only
    by_cases hg : 1 ≤ groupOf b0 b1 ∧ groupOf b0 b1 ≤ 2047
    · rw [if_pos hg, if_pos (show Plausible b0 b1 from ⟨h, hg⟩)]
    · rw [if_neg hg, if_neg fun hp : Plausible b0 b1 => hg hp.2]

theorem scan_stop (h : Plausible b0 b1) : scan (b0 :: b1 :: rest) = groupOf b0 b1 := by
  rw [scan_cons, if_pos h]

theorem scan_skip (h : ¬Plausible b0 b1) :
    scan (b0 :: b1 :: rest) = scan (b1 :: rest) := by
  rw [scan_cons, if_neg h]

theorem header_skip : ¬Plausible 0x30 b1 := fun h => h.1 (.inl rfl)

/-! ## Replies to the match command -/

/-- A code group of the table. -/
structure CodeGroup where
  val : UInt16
  pos : 1 ≤ val.toNat
  le : val.toNat ≤ 2047
  deriving DecidableEq, Repr

namespace CodeGroup

variable (g : CodeGroup)

/-- `GG`. -/
def hi : UInt8 := (g.val >>> 8).toUInt8

/-- `LL`. -/
def lo : UInt8 := (g.val &&& 0xFF).toUInt8

theorem hi_toNat : g.hi.toNat = g.val.toNat / 256 := by
  unfold hi
  rw [UInt16.toNat_toUInt8, UInt16.toNat_shiftRight]
  show g.val.toNat >>> 8 % 2 ^ 8 = g.val.toNat / 256
  have := g.le
  rw [Nat.shiftRight_eq_div_pow]
  omega

theorem lo_toNat : g.lo.toNat = g.val.toNat % 256 := by
  unfold lo
  rw [UInt16.toNat_toUInt8, UInt16.toNat_and]
  show (g.val.toNat &&& 2 ^ 8 - 1) % 2 ^ 8 = g.val.toNat % 256
  rw [Nat.and_two_pow_sub_one_eq_mod]
  exact Nat.mod_mod _ _

theorem isPlausible : Plausible g.hi g.lo := by
  have := g.pos
  have := g.le
  rw [plausible_iff, g.hi_toNat, g.lo_toNat]
  omega

theorem groupOf_eq : groupOf g.hi g.lo = g.val := by
  apply UInt16.toNat_inj.mp
  rw [groupOf_toNat, g.hi_toNat, g.lo_toNat]
  omega

/-- A byte before the group makes the same number of its high byte only if all three are equal. -/
theorem groupOf_eq_iff {xx : UInt8} : groupOf xx g.hi = g.val ↔ xx = g.hi ∧ g.hi = g.lo := by
  have hhi := g.hi_toNat
  have hlo := g.lo_toNat
  have hle := g.le
  rw [← UInt16.toNat_inj, groupOf_toNat, ← UInt8.toNat_inj, ← UInt8.toNat_inj]
  omega

theorem val_ne_zero : g.val ≠ 0 := by
  intro h
  have hpos := g.pos
  rw [h] at hpos
  cases hpos

end CodeGroup

/-- The forms that the comment of `rx_task` names. -/
inductive Reply where
  | bare (g : CodeGroup)
  | framed (xx : UInt8) (g : CodeGroup)
  deriving DecidableEq, Repr

namespace Reply

/-- The code group of a reply. -/
def group : Reply → CodeGroup
  | bare g | framed _ g => g

/-- `GG LL` or `30 XX GG LL`. -/
def bytes : Reply → List UInt8
  | bare g => [g.hi, g.lo]
  | framed xx g => [0x30, xx, g.hi, g.lo]

/-- Before the code group no pair is plausible, or one that is the same number. -/
def Clear : Reply → Prop
  | bare _ => True
  | framed xx g => 8 ≤ xx.toNat ∨ (xx = 0 ∧ g.hi = 0) ∨ (xx = g.hi ∧ g.hi = g.lo)

end Reply

/-! ## What the task gets of a reply -/

theorem matchCalls_append (es es' : List (RxEvent κ)) :
    matchCalls (es ++ es') = matchCalls es ++ matchCalls es' := List.filterMap_append

theorem matchCalls_learnPart : matchCalls (cbs.learnPart buf) = [] := by
  unfold Callbacks.learnPart
  split <;> rfl

theorem matchCalls_matchPart (h : cbs.matchCb = some cb) :
    matchCalls (cbs.matchPart buf) = if scan buf ≠ 0 then [(cb, scan buf)] else [] := by
  unfold Callbacks.matchPart
  rw [h]
  dsimp only
  split <;> rfl

/-- The match callback is called once at most, with the code group of the scan. -/
theorem matchCalls_rxPass (h : cbs.matchCb = some cb) :
    matchCalls (rxPass cbs buf) = if scan buf ≠ 0 then [(cb, scan buf)] else [] := by
  unfold rxPass
  split
  next hbuf => rw [List.eq_nil_of_length_eq_zero hbuf]; rfl
  · rw [matchCalls_append, matchCalls_learnPart, matchCalls_matchPart h, List.nil_append]

/-- The scan of a reply. -/
theorem scan_reply (r : Reply) (rest : List UInt8) : scan (r.bytes ++ rest) = match r with
    | .bare g => g.val
    | .framed xx g => if Plausible xx g.hi then groupOf xx g.hi else g.val := by
  cases r with
  | bare g =>
    show scan (g.hi :: g.lo :: rest) = g.val
    rw [scan_stop g.isPlausible, g.groupOf_eq]
  | framed xx g =>
    show scan (0x30 :: xx :: g.hi :: g.lo :: rest) = _
    rw [scan_skip header_skip, scan_cons, scan_stop g.isPlausible,
      g.groupOf_eq]

/-- The scan gets the code group. -/
theorem scan_reply_eq (r : Reply) (rest : List UInt8) :
    scan (r.bytes ++ rest) = r.group.val ↔ r.Clear := by
  rw [scan_reply]
  cases r with
  | bare g => exact iff_of_true rfl trivial
  | framed xx g =>
    dsimp only [Reply.group, Reply.Clear]
    have hle := g.le
    have hhi := g.hi_toNat
    by_cases hp : Plausible xx g.hi
    · rw [if_pos hp, g.groupOf_eq_iff]
      rw [plausible_iff] at hp
      constructor
      · exact fun h => .inr (.inr h)
      · rintro (h8 | ⟨rfl, h0⟩ | h)
        · omega
        · rw [h0] at hp
          exact absurd hp.2 (by decide)
        · exact h
    · rw [if_neg hp]
      rw [plausible_iff] at hp
      refine iff_of_true rfl ?_
      by_cases h8 : 8 ≤ xx.toNat
      · exact .inl h8
      · refine .inr (.inl ?_)
        rw [← UInt8.toNat_inj, ← UInt8.toNat_inj, UInt8.toNat_zero]
        omega

/-- **Which replies are decoded**: for every buffer that starts with a reply, the match callback is
called once with the code group exactly if the reply is `Clear`. -/
theorem decoded_iff (cb : κ) (learnCb : Option κ) (r : Reply) (rest : List UInt8) :
    matchCalls (rxPass ⟨some cb, learnCb⟩ (r.bytes ++ rest)) = [(cb, r.group.val)] ↔
      r.Clear := by
  rw [matchCalls_rxPass rfl, ← scan_reply_eq r rest]
  split
  · simp
  next h =>
    simp only [ne_eq, Decidable.not_not] at h
    rw [h]
    exact iff_of_false nofun (Ne.symm r.group.val_ne_zero)

/-- `30 01 03 3E` gives 259, not 830. -/
theorem not_decoded : ¬∀ (r : Reply) (rest : List UInt8),
    matchCalls (rxPass ⟨some (), none⟩ (r.bytes ++ rest)) = [((), r.group.val)] := by
  intro h
  have h259 := h (.framed 0x01 ⟨830, by decide, by decide⟩) []
  revert h259
  decide

end BleOta.Hxd019
