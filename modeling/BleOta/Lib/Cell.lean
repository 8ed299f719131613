import Mathlib.Data.List.Induction

/-!
# A cell whose failed writes may have been made

What a store with one value is for, when a write that is answered with an error (or cut off by a
power loss) may be in it all the same.

* `Cell.Op`: what is seen of an operation. `Cell.Trace a ops b`: from `a` the operations
  `ops` are possible, and `b` may be there after them.
* `Cell.Latest a ops x`: `x` comes from the last operation of `ops` that leaves no doubt, or
  from a failed write after it.
* `Cell.trace_iff`: the traces are the operations whose reads all give a latest value.
-/

namespace Lib

namespace Cell

variable {α : Type}

/-- A write, and whether it succeeded; a read that gave a value; an operation that showed and
changed nothing. -/
inductive Op (α : Type) where
  | write (a : α) (acked : Bool)
  | read (a : α)
  | silent

/-- An operation takes the cell from the first value to the second. -/
inductive Step : Op α → α → α → Prop
  | acked {a b : α} : Step (.write b true) a b
  | made {a b : α} : Step (.write b false) a b
  | lost {a b : α} : Step (.write b false) a a
  | read {a : α} : Step (.read a) a a
  | silent {a : α} : Step .silent a a

/-- The operations, one after the other. -/
inductive Trace (a : α) : List (Op α) → α → Prop
  | nil : Trace a [] a
  | snoc {ops : List (Op α)} {op : Op α} {b c : α} :
      Trace a ops b → Step op b c → Trace a (ops ++ [op]) c

/-- The value that an operation writes or shows. -/
def Op.value : Op α → Option α
  | .write a _ => some a
  | .read a => some a
  | .silent => none

/-- After the operation there is no doubt about the cell. -/
def Op.Definite : Op α → Prop
  | .write _ acked => acked = true
  | .read _ => True
  | .silent => False

/-- `x` is the value of an operation with no definite one after it, or the first value if there is
no definite one at all. -/
def Latest (a : α) (ops : List (Op α)) (x : α) : Prop :=
  (x = a ∧ ∀ op ∈ ops, ¬op.Definite) ∨
    ∃ pre op post, ops = pre ++ op :: post ∧ op.value = some x ∧ ∀ op ∈ post, ¬op.Definite

variable {a b c x : α} {ops : List (Op α)} {op : Op α}

/-! ## The latest values -/

/-- One of the elements of a list with an element added is the added one, or comes before it. -/
theorem snoc_eq_split {l pre post : List α} {y : α} (h : l ++ [x] = pre ++ y :: post) :
    (pre = l ∧ y = x ∧ post = []) ∨ ∃ post', post = post' ++ [x] ∧ l = pre ++ y :: post' := by
  rcases List.eq_nil_or_concat post with rfl | ⟨post', last, rfl⟩
  · obtain ⟨rfl, hy⟩ := List.append_inj' h rfl
    cases hy
    exact .inl ⟨rfl, rfl, rfl⟩
  · rw [List.concat_eq_append, ← List.cons_append, ← List.append_assoc] at h
    obtain ⟨rfl, hlast⟩ := List.append_inj' h rfl
    cases hlast
    exact .inr ⟨post', List.concat_eq_append, rfl⟩

theorem Latest.nil : Latest a [] a := .inl ⟨rfl, by simp⟩

/-- An operation gives its own value, and keeps the ones before it unless it is definite. -/
theorem latest_snoc :
    Latest a (ops ++ [op]) x ↔ op.value = some x ∨ (¬op.Definite ∧ Latest a ops x) := by
  constructor
  · rintro (⟨rfl, hno⟩ | ⟨pre, op', post, hops, hx, hno⟩)
    · exact .inr ⟨hno op (by simp), .inl ⟨rfl, fun o ho => hno o (by simp [ho])⟩⟩
    · obtain ⟨rfl, rfl, rfl⟩ | ⟨post', rfl, rfl⟩ := snoc_eq_split hops
      · exact .inl hx
      · exact .inr ⟨hno op (by simp),
          .inr ⟨pre, op', post', rfl, hx, fun o ho => hno o (by simp [ho])⟩⟩
  · rintro (hx | ⟨hop, ⟨rfl, hno⟩ | ⟨pre, op', post, rfl, hx, hno⟩⟩)
    · exact .inr ⟨ops, op, [], rfl, hx, by simp⟩
    · refine .inl ⟨rfl, fun o ho => ?_⟩
      rcases List.mem_append.mp ho with ho | ho
      · exact hno o ho
      · rwa [List.mem_singleton.mp ho]
    · refine .inr ⟨pre, op', post ++ [op], by simp, hx, fun o ho => ?_⟩
      rcases List.mem_append.mp ho with ho | ho
      · exact hno o ho
      · rwa [List.mem_singleton.mp ho]

/-- What a trace leaves is a latest value. -/
theorem Trace.latest (h : Trace a ops b) : Latest a ops b := by
  induction h with
  | nil => exact .nil
  | snoc _ hst ih =>
    refine latest_snoc.mpr ?_
    cases hst with
    | acked | made => exact .inl rfl
    | lost => exact .inr ⟨by simp [Op.Definite], ih⟩
    | read => exact .inl rfl
    | silent => exact .inr ⟨by simp [Op.Definite], ih⟩

/-! ## The traces -/

theorem trace_snoc : Trace a (ops ++ [op]) c ↔ ∃ b, Trace a ops b ∧ Step op b c := by
  refine ⟨fun h => ?_, fun ⟨b, ht, hst⟩ => ht.snoc hst⟩
  generalize hl : ops ++ [op] = l at h
  cases h with
  | nil => simp at hl
  | snoc ht hst =>
    obtain ⟨rfl, hop⟩ := List.append_inj' hl rfl
    cases hop
    exact ⟨_, ht, hst⟩

/-- Every read gives a latest value of the operations before it. -/
def ReadsLatest (a : α) (ops : List (Op α)) : Prop :=
  ∀ pre x post, ops = pre ++ .read x :: post → Latest a pre x

theorem ReadsLatest.of_snoc (h : ReadsLatest a (ops ++ [op])) : ReadsLatest a ops := by
  intro pre x post hops
  exact h pre x (post ++ [op]) (by simp [hops])

theorem Trace.readsLatest (h : Trace a ops b) : ReadsLatest a ops := by
  induction h with
  | nil =>
    intro pre x post hops
    simp at hops
  | snoc ht hst ih =>
    intro pre x post hops
    obtain ⟨rfl, rfl, rfl⟩ | ⟨post', rfl, rfl⟩ := snoc_eq_split hops
    · cases hst
      exact ht.latest
    · exact ih pre x post' rfl

/-- There always is a latest value. -/
theorem Latest.exists (a : α) (ops : List (Op α)) : ∃ x, Latest a ops x := by
  induction ops using List.reverseRecOn with
  | nil => exact ⟨a, .nil⟩
  | append_singleton ops op ih =>
    cases op with
    | write x | read x => exact ⟨x, latest_snoc.mpr (.inl rfl)⟩
    | silent =>
      obtain ⟨x, hx⟩ := ih
      exact ⟨x, latest_snoc.mpr (.inr ⟨by simp [Op.Definite], hx⟩)⟩

/-- Each latest value may be the one that is there. -/
theorem Trace.of_latest (hr : ReadsLatest a ops) (hb : Latest a ops b) : Trace a ops b := by
  induction ops using List.reverseRecOn generalizing b with
  | nil =>
    obtain ⟨rfl, -⟩ | ⟨pre, op, post, hops, -⟩ := hb
    · exact .nil
    · simp at hops
  | append_singleton ops op ih =>
    cases op with
    | write x acked =>
      cases acked with
      | true =>
        obtain ⟨c, hc⟩ := Latest.exists a ops
        obtain hx | ⟨hop, -⟩ := latest_snoc.mp hb
        · cases hx
          exact (ih hr.of_snoc hc).snoc .acked
        · exact absurd rfl hop
      | false =>
        obtain hx | ⟨-, hb⟩ := latest_snoc.mp hb
        · obtain ⟨c, hc⟩ := Latest.exists a ops
          cases hx
          exact (ih hr.of_snoc hc).snoc .made
        · exact (ih hr.of_snoc hb).snoc .lost
    | read x =>
      obtain hx | ⟨hop, -⟩ := latest_snoc.mp hb
      · cases hx
        exact (ih hr.of_snoc (hr ops b [] rfl)).snoc .read
      · exact absurd trivial hop
    | silent =>
      obtain hx | ⟨-, hb⟩ := latest_snoc.mp hb
      · cases hx
      · exact (ih hr.of_snoc hb).snoc .silent

/-- **The traces of the cell**: every read gives a latest value, and any of the latest values
may be there at the end. -/
theorem trace_iff : Trace a ops b ↔ ReadsLatest a ops ∧ Latest a ops b :=
  ⟨fun h => ⟨h.readsLatest, h.latest⟩, fun ⟨hr, hb⟩ => .of_latest hr hb⟩

end Cell

end Lib
