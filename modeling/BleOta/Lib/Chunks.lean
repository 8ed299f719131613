/-!
# Chunks of a stream, and scans that start anew at each chunk

* `IsChunks cs l`: the chunks `cs`, none empty, of the stream `l`; `Cut cs k`: one of them ends
  after `k` elements of the stream. `IsChunks.uncons`: the chunks of a stream by its first element.
* `block n l k`: the `k`-th block of `n` elements of the stream; a stream that grows (`block_snoc`)
  and one of which the first block is taken (`block_drop`).
* `firstPair f`: the first pair of neighbours to which `f` gives a value; `scanChunks f`: in each
  chunk. A pair is found if it is not cut (`scanChunks_found`), and a cut has the effect of a pair
  without a value (`scanChunks_skip`).
-/

namespace Lib

variable {α β : Type}

/-! ## Chunks -/

/-- The chunks, none of them empty, of a stream. -/
structure IsChunks (cs : List (List α)) (l : List α) : Prop where
  nonempty : ∀ c ∈ cs, c ≠ []
  flatten : cs.flatten = l

/-- A chunk ends after `k` elements of the stream. -/
def Cut (cs : List (List α)) (k : Nat) : Prop :=
  ∃ pre post, cs = pre ++ post ∧ pre.flatten.length = k

variable {cs cs' : List (List α)} {c l : List α} {a b : α} {k : Nat}

theorem cut_zero (cs : List (List α)) : Cut cs 0 := ⟨[], cs, rfl, rfl⟩

theorem cut_cons : Cut (c :: cs) k ↔ k = 0 ∨ c.length ≤ k ∧ Cut cs (k - c.length) := by
  constructor
  · rintro ⟨pre, post, hcs, hk⟩
    cases pre with
    | nil => exact .inl hk.symm
    | cons d pre =>
      cases hcs
      rw [List.flatten_cons, List.length_append] at hk
      exact .inr ⟨by omega, pre, post, rfl, by omega⟩
  · rintro (rfl | ⟨hle, pre, post, rfl, hk⟩)
    · exact cut_zero _
    · refine ⟨c :: pre, post, rfl, ?_⟩
      rw [List.flatten_cons, List.length_append]
      omega

theorem IsChunks.tail (h : IsChunks (c :: cs) l) : IsChunks cs cs.flatten :=
  ⟨fun d hd => h.nonempty d (List.mem_cons_of_mem _ hd), rfl⟩

/-- The chunks by the first element of the stream: it is a chunk of its own, or the first of a
longer one. -/
theorem IsChunks.uncons (h : IsChunks cs (a :: l)) :
    (Cut cs 1 ∧ ∃ cs', cs = [a] :: cs' ∧ IsChunks cs' l ∧
      ∀ k, Cut cs (k + 2) ↔ Cut cs' (k + 1)) ∨
    (¬Cut cs 1 ∧ ∃ c cs', cs = (a :: c) :: cs' ∧ IsChunks (c :: cs') l ∧
      ∀ k, Cut cs (k + 2) ↔ Cut (c :: cs') (k + 1)) := by
  cases cs with
  | nil => cases h.flatten
  | cons d cs =>
    cases d with
    | nil => exact absurd rfl (h.nonempty [] (List.mem_cons_self ..))
    | cons x c =>
      obtain ⟨rfl, hl⟩ := List.cons.inj h.flatten
      cases c with
      | nil =>
        have hcut : Cut ([x] :: cs) 1 := cut_cons.mpr (.inr ⟨Nat.le_refl 1, cut_zero cs⟩)
        refine .inl ⟨hcut, cs, rfl, ⟨h.tail.nonempty, hl⟩, fun k => ?_⟩
        rw [cut_cons]
        simp
      | cons y c =>
        refine .inr ⟨?_, y :: c, cs, rfl, ⟨?_, hl⟩, fun k => ?_⟩
        · rw [cut_cons]
          simp
        · intro e he
          rcases List.mem_cons.mp he with rfl | he
          · nofun
          · exact h.tail.nonempty e he
        · rw [cut_cons, cut_cons]
          simp

/-! ## Blocks -/

/-- The elements from `k * n` on, at most `n` of them. -/
def block (n : Nat) (l : List α) (k : Nat) : List α := (l.drop (k * n)).take n

theorem block_infix (n : Nat) (l : List α) (k : Nat) : block n l k <:+: l :=
  (List.take_prefix ..).isInfix.trans (List.drop_suffix ..).isInfix

theorem block_drop (n : Nat) (l : List α) (k : Nat) : block n (l.drop n) k = block n l (k + 1) := by
  unfold block
  rw [List.drop_drop, Nat.add_mul, Nat.one_mul, Nat.add_comm]

/-- A new element is the last one of its block. -/
theorem block_snoc {n : Nat} (hn : 0 < n) (l : List α) (a : α) (k : Nat) :
    block n (l ++ [a]) k = if k = l.length / n then block n l k ++ [a] else block n l k := by
  unfold block
  rcases Nat.lt_trichotomy k (l.length / n) with hk | hk | hk
  · have hle : k * n + n ≤ l.length := by
      have := (Nat.le_div_iff_mul_le hn).mp hk
      rwa [Nat.succ_mul] at this
    rw [if_neg (Nat.ne_of_lt hk), List.drop_append_of_le_length (by omega),
      List.take_append_of_le_length]
    rw [List.length_drop]
    omega
  · have hle : k * n ≤ l.length := hk ▸ Nat.div_mul_le_self ..
    have hlt : l.length < k * n + n := hk ▸ Nat.lt_div_mul_add hn
    rw [if_pos hk, List.drop_append_of_le_length hle, List.take_of_length_le,
      List.take_of_length_le]
    all_goals simp
    all_goals omega
  · have hlt : l.length < k * n := (Nat.div_lt_iff_lt_mul hn).mp hk
    rw [if_neg (Nat.ne_of_gt hk), List.drop_eq_nil_of_le, List.drop_eq_nil_of_le (Nat.le_of_lt hlt)]
    rw [List.length_append, List.length_singleton]
    exact hlt

/-! ## Scans -/

/-- The value of the first pair of neighbours that has one. -/
def firstPair (f : α → α → Option β) : List α → Option β
  | a :: b :: l => match f a b with
    | some v => some v
    | none => firstPair f (b :: l)
  | _ => none

/-- The values that are found in the chunks. -/
def scanChunks (f : α → α → Option β) (cs : List (List α)) : List β := cs.filterMap (firstPair f)

variable {f : α → α → Option β} {v : β}

theorem firstPair_some (h : f a b = some v) : firstPair f (a :: b :: l) = some v := by
  simp only [firstPair, h]

theorem firstPair_none (h : f a b = none) : firstPair f (a :: b :: l) = firstPair f (b :: l) := by
  simp only [firstPair, h]

/-- In a stream of at most one element nothing is found. -/
theorem scanChunks_short (h : IsChunks cs l) (hl : l.length ≤ 1) : scanChunks f cs = [] := by
  apply List.filterMap_eq_nil_iff.mpr
  intro c hc
  have hle : c.length ≤ l.length := h.flatten ▸ (List.sublist_flatten_of_mem hc).length_le
  match c, hle with
  | [], _ | [_], _ => rfl
  | x :: y :: c, hle =>
    simp only [List.length_cons] at hle
    omega

/-- The first element is passed over if a chunk ends there, or if its pair has no value. -/
theorem scanChunks_skip (h : IsChunks cs (a :: b :: l)) (hab : Cut cs 1 ∨ f a b = none) :
    ∃ cs', IsChunks cs' (b :: l) ∧ (∀ k, Cut cs (k + 2) ↔ Cut cs' (k + 1)) ∧
      scanChunks f cs = scanChunks f cs' := by
  rcases h.uncons with ⟨-, cs', rfl, hcs', hk⟩ | ⟨hcut, c, cs', rfl, hcs', hk⟩
  · exact ⟨cs', hcs', hk, rfl⟩
  · refine ⟨c :: cs', hcs', hk, ?_⟩
    cases c with
    | nil => exact absurd rfl (hcs'.nonempty [] (List.mem_cons_self ..))
    | cons y c =>
      obtain ⟨rfl, -⟩ := List.cons.inj hcs'.flatten
      have hnone := hab.resolve_left hcut
      unfold scanChunks
      rw [List.filterMap_cons, List.filterMap_cons, firstPair_none hnone]

/-- The value of the first pair is found if no chunk ends in the pair; the rest of its chunk is not
looked at. -/
theorem scanChunks_found (h : IsChunks cs (a :: b :: l)) (hcut : ¬Cut cs 1)
    (hab : f a b = some v) : ∃ c cs', c ++ cs'.flatten = l ∧ IsChunks cs' cs'.flatten ∧
      scanChunks f cs = v :: scanChunks f cs' := by
  rcases h.uncons with ⟨hc, -⟩ | ⟨-, c, cs', rfl, hcs', -⟩
  · exact absurd hc hcut
  · cases c with
    | nil => exact absurd rfl (hcs'.nonempty [] (List.mem_cons_self ..))
    | cons y c =>
      obtain ⟨rfl, hl⟩ := List.cons.inj hcs'.flatten
      refine ⟨c, cs', hl, hcs'.tail, ?_⟩
      unfold scanChunks
      rw [List.filterMap_cons, firstPair_some hab]

end Lib
