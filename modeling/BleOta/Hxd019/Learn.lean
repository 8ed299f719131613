import BleOta.Hxd019.Commands
import BleOta.Hxd019.Receive
import BleOta.Lib.Chunks
import BleOta.Lib.Tasks
import Mathlib.Data.List.Induction

/-!
# Match and learn (`hxd019_match`, `hxd019_start_learn`, `rx_task`)

Any tasks call `hxd019_match` and `hxd019_start_learn`; both register their callback and then send
their command. `rx_task` reads what has come, calls the learn callback, scans, and calls the match
callback. A registered callback stays.

* `Link`: the driver, the callbacks, the bytes that have come, `rx_task`, and a log.
* `link`: the system; bytes come at any time.
* `Proper`: the match callback was called only for what came while it was asked for.
* `InTurn`: what the bytes that come and the calls must keep to. `Link.InOrder` is the invariant: of
  what `rx_task` still has to scan (`Link.waiting`), the plausible pairs are the awaited reply.
* `proper_run`: a run of such steps is `Proper`; after any other step `rx_task` alone breaks it.
-/

namespace BleOta.Hxd019

/-! ## The system -/

/-- The commands that `rx_task` receives the answers of. -/
inductive Command where
  | «match»
  | learn
  deriving DecidableEq, Repr

/-- The frame of a command. -/
def Command.frame : Command → Frame
  | .match => buildMatch
  | .learn => buildLearn

/-- A byte, and the latest command that was sent when it came. -/
structure RxByte where
  byte : UInt8
  during : Option Command
  deriving DecidableEq, Repr

/-- The log: the commands that were sent, and what `rx_task` calls and logs, with the commands
during which the two bytes of its code group came. -/
inductive Event (κ : Type) where
  | sent (cmd : Command)
  | rx (e : RxEvent κ) (during : List (Option Command))
  deriving DecidableEq, Repr

/-- The places of `rx_task`: at `uart_read_bytes`, before the learn callback, before the scan,
before the match callback. -/
inductive RxPc where
  | reading
  | got (buf : List RxByte)
  | learned (buf : List RxByte)
  | scanned (buf : List RxByte)
  deriving DecidableEq, Repr

/-- The shared state. -/
structure Link (κ : Type) where
  drv : Driver
  cbs : Callbacks κ
  fifo : List RxByte
  rx : RxPc
  log : List (Event κ)
  deriving DecidableEq, Repr

/-- A call of `hxd019_match` or `hxd019_start_learn` with its callback. -/
structure CmdCall (κ : Type) where
  cmd : Command
  cb : Option κ
  deriving DecidableEq, Repr

/-- The places of a call: before and after it has registered its callback. -/
inductive CmdPc where
  | enter
  | registered
  deriving DecidableEq, Repr

/-- `HXD019_RX_BUF`. -/
abbrev rxBufSize : Nat := 256

variable {κ : Type}

/-- The latest command that was sent. -/
def latestCommand (log : List (Event κ)) : Option Command :=
  log.foldl (fun last e => match e with
    | .sent cmd => some cmd
    | .rx .. => last) none

namespace Link

/-- The callback is registered. -/
def register (c : CmdCall κ) (x : Link κ) : Link κ :=
  match c.cmd with
  | .match => { x with cbs := { x.cbs with matchCb := c.cb } }
  | .learn => { x with cbs := { x.cbs with learnCb := c.cb } }

/-- The command is sent. -/
def send (cmd : Command) (tx : Tx) (x : Link κ) : Link κ × Except Err Unit :=
  match sendFrame tx cmd.frame x.drv with
  | (.error e, d) => ({ x with drv := d }, .error e)
  | (.ok (), d) => ({ x with drv := d, log := x.log ++ [.sent cmd] }, .ok ())

/-- A byte comes. -/
def receive (b : UInt8) (x : Link κ) : Link κ :=
  { x with fifo := x.fifo ++ [⟨b, latestCommand x.log⟩] }

/-- The bytes of the first pair that is plausible, by the commands during which they came. -/
def pairDuring : List RxByte → List (Option Command)
  | x0 :: x1 :: rest =>
    if Plausible x0.byte x1.byte then [x0.during, x1.during] else pairDuring (x1 :: rest)
  | _ => []

/-- The next step of `rx_task`; `uart_read_bytes` returns what has come. -/
def rxStep (x : Link κ) : Option (Link κ) :=
  match x.rx with
  | .reading =>
    if x.fifo = [] then none
    else some { x with fifo := x.fifo.drop rxBufSize, rx := .got (x.fifo.take rxBufSize) }
  | .got buf => some { x with
      rx := .learned buf
      log := x.log ++ (x.cbs.learnPart (buf.map RxByte.byte)).map (.rx · []) }
  | .learned buf => some { x with
      rx := .scanned buf
      log := x.log ++ (resultPart (buf.map RxByte.byte)).map (.rx · (pairDuring buf)) }
  | .scanned buf => some { x with
      rx := .reading
      log := x.log ++ (x.cbs.callPart (buf.map RxByte.byte)).map (.rx · (pairDuring buf)) }

/-- After `hxd019_init`. -/
def start : Link κ := ⟨.start, ⟨none, none⟩, [], .reading, []⟩

end Link

/-- What `rx_task` called or logged. -/
def Event.toRx : Event κ → Option (RxEvent κ)
  | .sent _ => none
  | .rx e _ => some e

theorem filterMap_rx (es : List (RxEvent κ)) (during : List (Option Command)) :
    (es.map (Event.rx · during)).filterMap Event.toRx = es := by
  rw [List.filterMap_map]
  exact List.filterMap_some

/-- With no other step between them, the steps after `uart_read_bytes` are one pass. -/
theorem Link.rxStep_pass {x : Link κ} {buf : List RxByte} (hrx : x.rx = .got buf)
    (hbuf : buf ≠ []) : ∃ es, es.filterMap Event.toRx = rxPass x.cbs (buf.map RxByte.byte) ∧
      ((x.rxStep.bind rxStep).bind rxStep) =
        some { x with rx := .reading, log := x.log ++ es } := by
  refine ⟨(x.cbs.learnPart (buf.map RxByte.byte)).map (.rx · []) ++
    ((resultPart (buf.map RxByte.byte)).map (.rx · (pairDuring buf)) ++
      (x.cbs.callPart (buf.map RxByte.byte)).map (.rx · (pairDuring buf))), ?_, ?_⟩
  · rw [List.filterMap_append, List.filterMap_append, filterMap_rx, filterMap_rx, filterMap_rx,
      ← matchPart_eq, rxPass, if_neg (by simpa using hbuf)]
  · simp [rxStep, hrx]

/-- The steps of a call; it comes with the outcome of its transmission. -/
def cmdTasks (κ : Type) : Lib.Tasks (Link κ) (CmdCall κ × Tx) CmdPc (Except Err Unit) where
  enter _ := .enter
  resume
    | o, .enter, x => (x.register o.1, .inl .registered)
    | o, .registered, x => match x.send o.1.cmd o.2 with
      | (x, r) => (x, .inr r)

/-- A step: of a task that calls, of the chip, or of `rx_task`. -/
inductive Step (τ κ : Type) where
  | task (m : Lib.Tasks.Move τ (CmdCall κ × Tx))
  | receive (b : UInt8)
  | rx

/-- The tasks, the chip and `rx_task`. -/
abbrev System (τ κ : Type) : Type := Lib.Tasks.St τ (Link κ) (CmdCall κ × Tx) CmdPc

variable {τ : Type} [DecidableEq τ]

/-- The system after `hxd019_init`. -/
def link : Lib.Lts (System τ κ) (Step τ κ) where
  init x := x = ⟨.start, fun _ => none, []⟩
  step
    | .task m, x => (cmdTasks κ).move m x
    | .receive b, x => some { x with st := x.st.receive b }
    | .rx, x => x.st.rxStep.map fun s => { x with st := s }

/-! ## The calls of the match callback -/

/-- A match command is the latest one, and the match callback has not been called since. -/
def awaited (log : List (Event κ)) : Bool :=
  log.foldl (fun a e => match e with
    | .sent cmd => cmd == .match
    | .rx (.matchCb ..) _ => false
    | .rx .. => a) false

/-- The match callback was called only while a match command was awaited, and for no byte that came
after a learn command and before the next match command. -/
def Proper (log : List (Event κ)) : Prop :=
  ∀ pre cb group during post, log = pre ++ .rx (.matchCb cb group) during :: post →
    awaited pre = true ∧ some .learn ∉ during

/-! ## What waits for the scan -/

/-- The read that `rx_task` has in its hands. -/
def RxPc.buf : RxPc → List RxByte
  | .reading => []
  | .got buf | .learned buf | .scanned buf => buf

/-- Somewhere in the bytes is a plausible pair. -/
def HasPair (l : List RxByte) : Prop :=
  ∃ pre x0 x1 post, l = pre ++ x0 :: x1 :: post ∧ Plausible x0.byte x1.byte

namespace Link

/-- The reads that `rx_task` has still to scan: the one in its hands, and then what has come, in
pieces of `rxBufSize` bytes. -/
def waiting (x : Link κ) : Nat → List RxByte
  | 0 => x.rx.buf
  | k + 1 => Lib.block rxBufSize x.fifo k

/-- The read to which the next byte comes. -/
def last (x : Link κ) : Nat := x.fifo.length / rxBufSize + 1

/-- No plausible pair waits. -/
def Clear (x : Link κ) : Prop := ∀ k, ¬HasPair (x.waiting k)

/-- A plausible pair waits only while a match command is awaited, in one read, and the bytes of the
first one in it came while no learn command was the latest. -/
structure InOrder (x : Link κ) : Prop where
  turn : ∀ k, HasPair (x.waiting k) →
    awaited x.log = true ∧ some .learn ∉ pairDuring (x.waiting k)
  once : ∀ k k', HasPair (x.waiting k) → HasPair (x.waiting k') → k = k'

end Link

/-- What the chip sends and the tasks do while a match callback is registered. A byte makes the
first plausible pair of its read only while a match command is awaited, after a byte that came
during no learn command, and while no other pair waits; a learn command is sent only while no pair
waits. A match callback is registered only while what waits is in order. -/
def InTurn (x : System τ κ) : Step τ κ → Prop
  | .receive b => x.st.cbs.matchCb ≠ none →
      ∀ x0 ∈ (x.st.waiting x.st.last).getLast?, Plausible x0.byte b →
        ¬HasPair (x.st.waiting x.st.last) →
          awaited x.st.log = true ∧ x0.during ≠ some .learn ∧ x.st.Clear
  | .task (.step t) => match x.place t with
    | some ((c, _), .enter) => c.cmd = .match → c.cb ≠ none → x.st.InOrder
    | some ((c, tx), .registered) => c.cmd = .learn → x.st.cbs.matchCb ≠ none →
        x.st.drv.txError tx c.cmd.frame = false → x.st.Clear
    | none => True
  | _ => True

variable {log es : List (Event κ)} {e : Event κ} {x x' : System τ κ}

theorem awaited_snoc : awaited (log ++ [e]) = match e with
    | .sent cmd => cmd == .match
    | .rx (.matchCb ..) _ => false
    | .rx .. => awaited log := by
  unfold awaited
  rw [List.foldl_append]
  rfl

/-- Not a call of the match callback. -/
def Event.Quiet (e : Event κ) : Prop := ∀ cb group during, e ≠ .rx (.matchCb cb group) during

theorem Event.quiet_sent (cmd : Command) : Event.Quiet (.sent cmd : Event κ) := by
  intro cb group during h
  cases h

/-- After a match command came neither a command nor a call of the match callback. -/
def AwaitedSince (log : List (Event κ)) : Prop :=
  ∃ pre post, log = pre ++ .sent .match :: post ∧ ∀ e ∈ post, e.Quiet ∧ ∀ cmd, e ≠ .sent cmd

theorem awaitedSince_snoc : AwaitedSince (log ++ [e]) ↔
    e = .sent .match ∨ ((e.Quiet ∧ ∀ cmd, e ≠ .sent cmd) ∧ AwaitedSince log) := by
  constructor
  · rintro ⟨pre, post, hlog, hpost⟩
    rcases List.eq_nil_or_concat post with rfl | ⟨post', e', rfl⟩
    · exact .inl (List.cons.inj (List.append_inj' hlog rfl).2).1
    · rw [List.concat_eq_append] at hlog hpost
      rw [← List.cons_append, ← List.append_assoc] at hlog
      obtain ⟨rfl, he⟩ := List.append_inj' hlog rfl
      cases he
      exact .inr ⟨hpost e List.mem_concat_self, pre, post', rfl, fun e' he' =>
        hpost e' (List.mem_append_left _ he')⟩
  · rintro (rfl | ⟨he, pre, post, rfl, hpost⟩)
    · exact ⟨log, [], rfl, nofun⟩
    · refine ⟨pre, post ++ [e], by rw [List.append_assoc, List.cons_append], fun e' he' => ?_⟩
      rcases List.mem_append.mp he' with he' | he'
      · exact hpost e' he'
      · rw [List.mem_singleton.mp he']
        exact he

/-- What `awaited` says. -/
theorem awaited_iff : awaited log = true ↔ AwaitedSince log := by
  induction log using List.reverseRecOn with
  | nil =>
    refine iff_of_false Bool.false_ne_true ?_
    rintro ⟨pre, post, hlog, -⟩
    exact List.append_ne_nil_of_right_ne_nil pre (List.cons_ne_nil _ post) hlog.symm
  | append_singleton log e ih =>
    rw [awaitedSince_snoc, awaited_snoc, ← ih]
    cases e with
    | sent cmd => simp
    | rx r during =>
      cases r with
      | matchCb cb group => simp [Event.Quiet]
      | learnCb | matchResult | learnData => simp [Event.Quiet]

/-- A match command is waited for again only if another one was sent. -/
theorem AwaitedSince.sent (h : AwaitedSince (log ++ es)) (hno : ¬AwaitedSince log) :
    .sent .match ∈ es := by
  induction es using List.reverseRecOn with
  | nil =>
    rw [List.append_nil] at h
    exact absurd h hno
  | append_singleton es e ih =>
    rw [← List.append_assoc] at h
    rcases awaitedSince_snoc.mp h with rfl | ⟨-, h⟩
    · exact List.mem_append_right _ (List.mem_singleton_self _)
    · exact List.mem_append_left _ (ih h)

/-- Between two calls of the match callback a match command was sent. -/
theorem Proper.once {cb cb' : κ} {group group' : UInt16} {during during' : List (Option Command)}
    {pre mid post : List (Event κ)} (h : Proper log)
    (hlog : log = pre ++ [.rx (.matchCb cb group) during] ++ mid ++
      .rx (.matchCb cb' group') during' :: post) : .sent .match ∈ mid := by
  have hawait := awaited_iff.mp (h _ cb' group' during' post hlog).1
  apply hawait.sent
  intro hpre
  rcases awaitedSince_snoc.mp hpre with he | ⟨⟨hquiet, -⟩, -⟩
  · cases he
  · exact hquiet cb group during rfl

/-! ## Pairs -/

section

open Link

variable {l rest : List RxByte} {x0 x1 : RxByte}

theorem HasPair.mono {l' : List RxByte} (h : HasPair l) (hl : l <:+: l') : HasPair l' := by
  obtain ⟨pre, x0, x1, post, rfl, hp⟩ := h
  obtain ⟨pre', post', rfl⟩ := hl
  exact ⟨pre' ++ pre, x0, x1, post ++ post', by simp, hp⟩

/-- A pair of a list is at its head or in its tail. -/
theorem hasPair_cons_cons :
    HasPair (x0 :: x1 :: rest) ↔ Plausible x0.byte x1.byte ∨ HasPair (x1 :: rest) := by
  constructor
  · rintro ⟨pre, y0, y1, post, hl, hp⟩
    cases pre with
    | nil =>
      cases hl
      exact .inl hp
    | cons z pre =>
      exact .inr ⟨pre, y0, y1, post, (List.cons.inj hl).2, hp⟩
  · rintro (hp | h)
    · exact ⟨[], x0, x1, rest, rfl, hp⟩
    · exact h.mono (List.suffix_cons ..).isInfix

theorem not_hasPair_nil : ¬HasPair [] := by
  rintro ⟨pre, x0, x1, post, hl, -⟩
  exact List.append_ne_nil_of_right_ne_nil pre (List.cons_ne_nil _ _) hl.symm

theorem not_hasPair_singleton : ¬HasPair [x0] := by
  rintro ⟨pre, y0, y1, post, hl, -⟩
  have hlen := congrArg List.length hl
  simp only [List.length_append, List.length_cons, List.length_nil] at hlen
  omega

/-- The loop finds a pair if there is one. -/
theorem scan_ne_zero : scan (l.map RxByte.byte) ≠ 0 ↔ HasPair l := by
  induction l with
  | nil => exact iff_of_false (fun h => h rfl) not_hasPair_nil
  | cons x0 l ih =>
    cases l with
    | nil => exact iff_of_false (fun h => h rfl) not_hasPair_singleton
    | cons x1 rest =>
      rw [hasPair_cons_cons, ← ih, List.map_cons, List.map_cons, scan_cons]
      by_cases hp : Plausible x0.byte x1.byte
      · rw [if_pos hp]
        refine iff_of_true (fun h => ?_) (.inl hp)
        have h1 := hp.2.1
        rw [h] at h1
        exact absurd h1 (by decide)
      · rw [if_neg hp, or_iff_right hp]

instance (l : List RxByte) : Decidable (HasPair l) := decidable_of_iff _ scan_ne_zero

/-- The first pair of `l` stays the first one. -/
theorem pairDuring_append (h : HasPair l) (l' : List RxByte) :
    pairDuring (l ++ l') = pairDuring l := by
  induction l with
  | nil => exact absurd h not_hasPair_nil
  | cons x0 l ih =>
    cases l with
    | nil => exact absurd h not_hasPair_singleton
    | cons x1 rest =>
      by_cases hp : Plausible x0.byte x1.byte
      · exact (if_pos hp).trans (if_pos hp).symm
      · have htail := (hasPair_cons_cons.mp h).resolve_left hp
        exact (if_neg hp).trans ((ih htail).trans (if_neg hp).symm)

/-- One more byte makes a pair with the last one. -/
theorem hasPair_snoc (h : ¬HasPair l) : HasPair (l ++ [x1]) ↔
    ∃ x0 ∈ l.getLast?, Plausible x0.byte x1.byte := by
  induction l with
  | nil => exact iff_of_false not_hasPair_singleton (by simp)
  | cons y0 l ih =>
    cases l with
    | nil => simp [hasPair_cons_cons, not_hasPair_singleton]
    | cons y1 rest =>
      have hno := mt hasPair_cons_cons.mpr h
      rw [List.cons_append, List.cons_append, hasPair_cons_cons, or_iff_right (mt Or.inl hno),
        ← List.cons_append, ih (mt Or.inr hno), List.getLast?_cons_cons]

/-- The pair that it makes is the first one. -/
theorem pairDuring_snoc (h : ¬HasPair l) (hx : x0 ∈ l.getLast?) (hp : Plausible x0.byte x1.byte) :
    pairDuring (l ++ [x1]) = [x0.during, x1.during] := by
  induction l with
  | nil => cases hx
  | cons y0 l ih =>
    cases l with
    | nil =>
      cases hx
      exact if_pos hp
    | cons y1 rest =>
      have hno := mt hasPair_cons_cons.mpr h
      rw [List.getLast?_cons_cons] at hx
      exact (if_neg (mt Or.inl hno)).trans (ih (mt Or.inr hno) hx)

end

/-! ## The callback -/

theorem proper_snoc : Proper (log ++ [e]) ↔ Proper log ∧
    ∀ cb group during, e = .rx (.matchCb cb group) during →
      awaited log = true ∧ some .learn ∉ during := by
  constructor
  · intro h
    refine ⟨fun pre cb group during post hlog => ?_, fun cb group during he => ?_⟩
    · apply h pre cb group during (post ++ [e])
      rw [hlog, List.append_assoc, List.cons_append]
    · exact h log cb group during [] (by rw [he])
  · rintro ⟨h, he⟩ pre cb group during post hlog
    rcases List.eq_nil_or_concat post with rfl | ⟨post', e', rfl⟩
    · obtain ⟨rfl, he'⟩ := List.append_inj' hlog rfl
      exact he cb group during (List.cons.inj he').1
    · rw [List.concat_eq_append, ← List.cons_append, ← List.append_assoc] at hlog
      exact h pre cb group during post' (List.append_inj' hlog rfl).1

theorem proper_snoc_quiet (h : e.Quiet) : Proper (log ++ [e]) ↔ Proper log := by
  rw [proper_snoc]
  exact and_iff_left fun cb group during he => absurd he (h cb group during)

theorem proper_append_quiet (h : ∀ e ∈ es, Event.Quiet e) : Proper (log ++ es) ↔ Proper log := by
  induction es generalizing log with
  | nil => rw [List.append_nil]
  | cons e es ih =>
    rw [List.append_cons, ih fun e' he' => h e' (List.mem_cons_of_mem _ he'),
      proper_snoc_quiet (h e (List.mem_cons_self ..))]

/-- The call of the match callback. -/
theorem proper_callPart {cbs : Callbacks κ} {buf : List UInt8} {during : List (Option Command)} :
    Proper (log ++ (cbs.callPart buf).map (.rx · during)) ↔ Proper log ∧
      (cbs.matchCb ≠ none → scan buf ≠ 0 → awaited log = true ∧ some .learn ∉ during) := by
  unfold Callbacks.callPart
  by_cases hs : scan buf ≠ 0
  · rw [if_pos hs]
    cases cbs.matchCb with
    | none =>
      rw [List.map_nil, List.append_nil]
      exact (and_iff_left fun h => absurd rfl h).symm
    | some cb =>
      rw [List.map_singleton, proper_snoc]
      refine and_congr_right fun _ => ⟨fun h _ _ => h cb _ during rfl, ?_⟩
      rintro h _ _ _ ⟨⟩
      exact h nofun hs
  · rw [if_neg hs, List.map_nil, List.append_nil]
    exact (and_iff_left fun _ h => absurd h hs).symm

/-! ## The steps -/

/-- What a step does to the shared state. -/
inductive Act (x : System τ κ) : Step τ κ → Link κ → Prop
  | call (t : τ) (o : CmdCall κ × Tx) : Act x (.task (.call t o)) x.st
  | register {t c tx} : x.place t = some ((c, tx), .enter) →
      Act x (.task (.step t)) (x.st.register c)
  | fail {t c tx} : x.place t = some ((c, tx), .registered) →
      x.st.drv.txError tx c.cmd.frame = true → Act x (.task (.step t)) x.st
  | send {t c tx} (d : Driver) : x.place t = some ((c, tx), .registered) →
      x.st.drv.txError tx c.cmd.frame = false →
      Act x (.task (.step t)) { x.st with drv := d, log := x.st.log ++ [.sent c.cmd] }
  | receive (b : UInt8) : Act x (.receive b) (x.st.receive b)
  | rx {s} : x.st.rxStep = some s → Act x .rx s

theorem link_act {l : Step τ κ} (h : link.step l x = some x') : Act x l x'.st := by
  match l with
  | .receive b =>
    cases h
    exact .receive b
  | .rx =>
    obtain ⟨s, hs, rfl⟩ := Option.map_eq_some_iff.mp h
    exact .rx hs
  | .task (.call t o) =>
    simp only [link, Lib.Tasks.move] at h
    split at h <;> cases h
    exact .call t o
  | .task (.step t) =>
    simp only [link, Lib.Tasks.move] at h
    split at h
    · cases h
    next o p hpl =>
      obtain ⟨c, tx⟩ := o
      cases p with
      | enter =>
        cases h
        exact .register hpl
      | registered =>
        cases h
        have hact : Act x (.task (.step t)) (x.st.send c.cmd tx).1 := by
          unfold Link.send sendFrame
          cases herr : x.st.drv.txError tx c.cmd.frame with
          | true => exact .fail hpl herr
          | false => exact .send _ hpl herr
        exact hact

/-- Neither a command nor a call of the match callback. -/
def Event.Silent (e : Event κ) : Prop := e.Quiet ∧ ∀ cmd, e ≠ .sent cmd

/-- The steps of `rx_task` up to its next read. -/
def RxPc.rank : RxPc → Nat
  | .reading => 0
  | .got _ => 3
  | .learned _ => 2
  | .scanned _ => 1

/-- What a step of `rx_task` does. -/
inductive RxAct (x : Link κ) : Link κ → Prop
  | read : x.rx = .reading → x.fifo ≠ [] →
      RxAct x { x with fifo := x.fifo.drop rxBufSize, rx := .got (x.fifo.take rxBufSize) }
  | log {pc es} : pc.buf = x.rx.buf → pc.rank < x.rx.rank → (∀ e ∈ es, Event.Silent e) →
      RxAct x { x with rx := pc, log := x.log ++ es }
  | call {buf} : x.rx = .scanned buf →
      RxAct x { x with
        rx := .reading
        log := x.log ++
          (x.cbs.callPart (buf.map RxByte.byte)).map (.rx · (Link.pairDuring buf)) }

theorem rxStep_act {x s : Link κ} (h : x.rxStep = some s) : RxAct x s := by
  unfold Link.rxStep at h
  cases hrx : x.rx with
  | reading =>
    rw [hrx] at h
    dsimp only at h
    split at h <;> cases h
    next hf => exact .read hrx hf
  | got buf =>
    rw [hrx] at h
    cases h
    refine .log (by rw [hrx]; rfl) (by rw [hrx]; exact Nat.lt_succ_self _) ?_
    unfold Callbacks.learnPart
    split
    · intro e he
      cases List.mem_singleton.mp he
      exact ⟨nofun, nofun⟩
    · nofun
  | learned buf =>
    rw [hrx] at h
    cases h
    refine .log (by rw [hrx]; rfl) (by rw [hrx]; exact Nat.lt_succ_self _) ?_
    unfold resultPart
    split
    all_goals
      intro e he
      cases List.mem_singleton.mp he
      exact ⟨nofun, nofun⟩
  | scanned buf =>
    rw [hrx] at h
    cases h
    exact .call hrx

theorem awaited_silent (h : ∀ e ∈ es, Event.Silent e) : awaited (log ++ es) = awaited log := by
  induction es using List.reverseRecOn with
  | nil => rw [List.append_nil]
  | append_singleton es e ih =>
    obtain ⟨hquiet, hsent⟩ := h e (by simp)
    rw [← List.append_assoc, awaited_snoc, ← ih fun e' he' => h e' (List.mem_append_left _ he')]
    cases e with
    | sent cmd => exact absurd rfl (hsent cmd)
    | rx r during =>
      cases r with
      | matchCb cb group => exact absurd rfl (hquiet cb group during)
      | learnCb | matchResult | learnData => rfl

namespace Link

variable {y y' : Link κ} {k : Nat}

theorem waiting_congr (hrx : y'.rx.buf = y.rx.buf) (hf : y'.fifo = y.fifo) :
    y'.waiting = y.waiting := by
  funext k
  cases k with
  | zero => exact hrx
  | succ k => rw [waiting, waiting, hf]

/-- `uart_read_bytes` takes the first of the reads that are to come. -/
theorem waiting_read :
    waiting { y with fifo := y.fifo.drop rxBufSize, rx := .got (y.fifo.take rxBufSize) } k =
      y.waiting (k + 1) := by
  cases k with
  | zero => exact congrArg (List.take rxBufSize) (List.drop_zero ..).symm
  | succ k => exact Lib.block_drop rxBufSize y.fifo k

/-- A byte comes to the last read. -/
theorem waiting_receive {b : UInt8} : (y.receive b).waiting k =
    if k = y.last then y.waiting k ++ [⟨b, latestCommand y.log⟩] else y.waiting k := by
  cases k with
  | zero => exact (if_neg (Nat.succ_ne_zero _).symm).symm
  | succ k =>
    simp only [last, Nat.add_right_cancel_iff]
    exact Lib.block_snoc (by decide) y.fifo _ k

end Link

/-! ## A run in turn -/

theorem latestCommand_snoc : latestCommand (log ++ [e]) = match e with
    | .sent cmd => some cmd
    | .rx .. => latestCommand log := by
  unfold latestCommand
  rw [List.foldl_append]
  rfl

/-- A match command that is awaited is the latest one. -/
theorem latestCommand_awaited (h : awaited log = true) : latestCommand log = some .match := by
  induction log using List.reverseRecOn with
  | nil => cases h
  | append_singleton log e ih =>
    rw [awaited_snoc] at h
    rw [latestCommand_snoc]
    cases e with
    | sent cmd => rw [beq_iff_eq.mp h]
    | rx r during =>
      cases r with
      | matchCb => cases h
      | learnCb | matchResult | learnData => exact ih h

namespace Link

variable {y y' : Link κ} {k : Nat}

/-- The pairs of `y'` were in the reads `f k` of `y`. -/
theorem InOrder.moved (h : y.InOrder) {f : Nat → Nat} (hf : Function.Injective f)
    (hw : ∀ k, HasPair (y'.waiting k) → HasPair (y.waiting (f k)) ∧
      pairDuring (y'.waiting k) = pairDuring (y.waiting (f k)))
    (hlog : awaited y'.log = awaited y.log) : y'.InOrder := by
  constructor
  · intro k hk
    obtain ⟨hpair, hduring⟩ := hw k hk
    rw [hlog, hduring]
    exact h.turn (f k) hpair
  · intro k k' hk hk'
    exact hf (h.once (f k) (f k') (hw k hk).1 (hw k' hk').1)

theorem InOrder.congr (h : y.InOrder) (hw : y'.waiting = y.waiting)
    (hlog : awaited y'.log = awaited y.log) : y'.InOrder :=
  h.moved Function.injective_id (fun _ hk => hw ▸ ⟨hk, rfl⟩) hlog

theorem Clear.inOrder (h : y.Clear) : y.InOrder :=
  ⟨fun k hk => absurd hk (h k), fun k _ hk _ => absurd hk (h k)⟩

/-- The byte makes a pair of the awaited reply, or none that the scan takes. -/
theorem InOrder.receive {b : UInt8} (h : y.InOrder)
    (hin : ∀ x0 ∈ (y.waiting y.last).getLast?, Plausible x0.byte b → ¬HasPair (y.waiting y.last) →
      awaited y.log = true ∧ x0.during ≠ some .learn ∧ y.Clear) : (y.receive b).InOrder := by
  by_cases hold : HasPair (y.waiting y.last)
  · refine h.moved Function.injective_id (fun k hk => ?_) rfl
    rw [waiting_receive] at hk ⊢
    split
    next hlast =>
      subst hlast
      exact ⟨hold, pairDuring_append hold _⟩
    next hlast =>
      rw [if_neg hlast] at hk
      exact ⟨hk, rfl⟩
  by_cases hnew : ∃ x0 ∈ (y.waiting y.last).getLast?, Plausible x0.byte b
  · obtain ⟨x0, hx0, hp⟩ := hnew
    obtain ⟨hawait, hduring, hclear⟩ := hin x0 hx0 hp hold
    have hlast (k : Nat) (hk : HasPair ((y.receive b).waiting k)) : k = y.last := by
      by_contra hne
      rw [waiting_receive, if_neg hne] at hk
      exact hclear k hk
    refine ⟨fun k hk => ⟨hawait, ?_⟩, fun k k' hk hk' => (hlast k hk).trans (hlast k' hk').symm⟩
    rw [waiting_receive, if_pos (hlast k hk), hlast k hk, pairDuring_snoc hold hx0 hp,
      latestCommand_awaited hawait]
    simpa using hduring.symm
  · refine h.moved Function.injective_id (fun k hk => ?_) rfl
    rw [waiting_receive] at hk ⊢
    split at hk
    next hlast =>
      subst hlast
      exact absurd ((hasPair_snoc hold).mp hk) hnew
    next hlast =>
      rw [if_neg hlast]
      exact ⟨hk, rfl⟩

/-- The calls of the match callback were proper; while one is registered, what waits is in order. -/
structure Kept (y : Link κ) : Prop where
  proper : Proper y.log
  order : y.cbs.matchCb ≠ none → y.InOrder

theorem start_kept : (start : Link κ).Kept := by
  refine ⟨?_, fun h => absurd rfl h⟩
  intro pre cb group during post hlog
  exact absurd hlog.symm (List.append_ne_nil_of_right_ne_nil pre (List.cons_ne_nil _ post))

/-- After the call of the match callback nothing is in the hands of `rx_task`. -/
theorem waiting_call {log : List (Event κ)}
    (hk : HasPair (Link.waiting { y with rx := .reading, log := log } k)) :
    k ≠ 0 ∧ Link.waiting { y with rx := .reading, log := log } k = y.waiting k := by
  cases k with
  | zero => exact absurd hk not_hasPair_nil
  | succ k => exact ⟨Nat.succ_ne_zero k, rfl⟩

theorem Kept.rx (h : y.Kept) (hact : RxAct y y') : y'.Kept := by
  cases hact with
  | read =>
    refine ⟨h.proper, fun hcb => (h.order hcb).moved (f := Nat.succ) (fun _ _ => Nat.succ.inj)
      (fun k hk => ?_) rfl⟩
    rw [waiting_read] at hk ⊢
    exact ⟨hk, rfl⟩
  | log hbuf _ hes =>
    refine ⟨(proper_append_quiet fun e he => (hes e he).1).mpr h.proper, fun hcb => ?_⟩
    exact (h.order hcb).congr (waiting_congr hbuf rfl) (awaited_silent hes)
  | @call buf hrx =>
    have hbuf : y.waiting 0 = buf := by rw [waiting, hrx, RxPc.buf]
    constructor
    · refine proper_callPart.mpr ⟨h.proper, fun hcb hscan => ?_⟩
      rw [← hbuf] at hscan ⊢
      exact (h.order hcb).turn 0 (scan_ne_zero.mp hscan)
    intro hcb
    by_cases hpair : HasPair buf
    · -- The callback is called: no other pair waits.
      refine Clear.inOrder fun k hk => ?_
      obtain ⟨hne, hw⟩ := waiting_call hk
      exact hne ((h.order hcb).once k 0 (hw ▸ hk) (hbuf ▸ hpair))
    · refine (h.order hcb).moved Function.injective_id (fun k hk => ?_) ?_
      · have hw := (waiting_call hk).2
        rw [hw] at hk ⊢
        exact ⟨hk, rfl⟩
      · dsimp only
        rw [Callbacks.callPart, if_neg (mt scan_ne_zero.mp hpair), List.map_nil, List.append_nil]

theorem waiting_send (d : Driver) (cmd : Command) :
    Link.waiting { y with drv := d, log := y.log ++ [.sent cmd] } = y.waiting :=
  waiting_congr rfl rfl

theorem Kept.send (h : y.Kept) (d : Driver) {cmd : Command}
    (hin : cmd = .learn → y.cbs.matchCb ≠ none → y.Clear) :
    Kept { y with drv := d, log := y.log ++ [.sent cmd] } := by
  refine ⟨(proper_snoc_quiet (Event.quiet_sent _)).mpr h.proper, fun hcb => ?_⟩
  cases cmd with
  | «match» =>
    constructor
    · rw [waiting_send]
      exact fun k hk => ⟨awaited_snoc, ((h.order hcb).turn k hk).2⟩
    · rw [waiting_send]
      exact (h.order hcb).once
  | learn =>
    refine Clear.inOrder fun k => ?_
    rw [waiting_send]
    exact hin rfl hcb k

end Link

/-- **A step in turn** keeps the invariant. -/
theorem kept_step (l : Step τ κ) (x x' : System τ κ) (h : x.st.Kept) (hin : InTurn x l)
    (hst : link.step l x = some x') : x'.st.Kept := by
  generalize hs : x'.st = s
  have hact := hs ▸ link_act hst
  cases hact with
  | call | fail => exact h
  | @register t c tx hpl =>
    simp only [InTurn, hpl] at hin
    obtain ⟨cmd, cb⟩ := c
    cases cmd with
    | «match» => exact ⟨h.proper, fun hcb => (hin rfl hcb).congr (Link.waiting_congr rfl rfl) rfl⟩
    | learn => exact ⟨h.proper, fun hcb => (h.order hcb).congr (Link.waiting_congr rfl rfl) rfl⟩
  | @send t c tx d hpl herr =>
    simp only [InTurn, hpl] at hin
    exact h.send d fun hcmd hcb => hin hcmd hcb herr
  | receive b => exact ⟨h.proper, fun hcb => (h.order hcb).receive (hin hcb)⟩
  | rx hs => exact h.rx (rxStep_act hs)

/-! ## After a step out of turn -/

namespace Link

variable {y y' : Link κ} {k : Nat}

/-- The pair in the read `k` is not the awaited reply. -/
def Late (y : Link κ) (k : Nat) : Prop :=
  HasPair (y.waiting k) ∧ (awaited y.log = false ∨ some .learn ∈ pairDuring (y.waiting k) ∨
    ∃ j < k, HasPair (y.waiting j))

theorem exists_late (h : ¬y.InOrder) : ∃ k, y.Late k := by
  by_contra hno
  refine h ⟨fun k hk => ?_, fun k k' hk hk' => ?_⟩
  · by_contra hbad
    refine hno ⟨k, hk, ?_⟩
    by_cases hawait : awaited y.log = true
    · exact .inr (.inl (not_not.mp fun hl => hbad ⟨hawait, hl⟩))
    · exact .inl (Bool.eq_false_iff.mpr hawait)
  · rcases Nat.lt_trichotomy k k' with hlt | heq | hlt
    · exact absurd ⟨k', hk', .inr (.inr ⟨k, hlt, hk⟩)⟩ hno
    · exact heq
    · exact absurd ⟨k, hk, .inr (.inr ⟨k', hlt, hk'⟩)⟩ hno

theorem Late.congr (h : y.Late k) (hw : y'.waiting = y.waiting)
    (hlog : awaited y'.log = awaited y.log) : y'.Late k := by
  unfold Late
  rw [hw, hlog]
  exact h

/-- A read is never empty before a pair. -/
theorem Late.enabled (h : y.Late k) : ∃ s, y.rxStep = some s := by
  unfold rxStep
  cases hrx : y.rx with
  | reading =>
    refine ⟨_, if_neg fun hf => ?_⟩
    have hempty : y.waiting k = [] := by
      cases k with
      | zero => rw [waiting, hrx, RxPc.buf]
      | succ k => simp [waiting, Lib.block, hf]
    exact not_hasPair_nil (hempty ▸ h.1)
  | got | learned | scanned => exact ⟨_, rfl⟩

/-- The steps of `rx_task` to the scan of the read `k`, and past it. -/
def toScan (y : Link κ) (k : Nat) : Nat := 4 * k + y.rx.rank

/-- `rx_task` calls the match callback out of turn, or comes closer to it. -/
theorem Late.rx (h : y.Late k) (hcb : y.cbs.matchCb ≠ none) (hact : RxAct y y') :
    y'.cbs.matchCb ≠ none ∧
      (¬Proper y'.log ∨ ∃ k', y'.Late k' ∧ y'.toScan k' < y.toScan k) := by
  cases hact with
  | read hrx _ =>
    refine ⟨hcb, .inr ?_⟩
    have hzero : ¬HasPair (y.waiting 0) := by
      rw [waiting, hrx]
      exact not_hasPair_nil
    obtain ⟨hpair, hlate⟩ := h
    cases k with
    | zero => exact absurd hpair hzero
    | succ k =>
      refine ⟨k, ⟨waiting_read ▸ hpair, ?_⟩, ?_⟩
      · rw [waiting_read]
        refine hlate.imp_right (Or.imp_right ?_)
        rintro ⟨j, hj, hpj⟩
        cases j with
        | zero => exact absurd hpj hzero
        | succ j => exact ⟨j, Nat.lt_of_succ_lt_succ hj, waiting_read ▸ hpj⟩
      · simp only [toScan, hrx, RxPc.rank]
        omega
  | log hbuf hrank hes =>
    refine ⟨hcb, .inr ⟨k, h.congr (waiting_congr hbuf rfl) (awaited_silent hes), ?_⟩⟩
    simp only [toScan]
    omega
  | @call buf hrx =>
    have hbuf : y.waiting 0 = buf := by rw [waiting, hrx, RxPc.buf]
    have hrank : 4 * k + 0 < y.toScan k := by simp [toScan, hrx, RxPc.rank]
    refine ⟨hcb, ?_⟩
    obtain ⟨hpair, hlate⟩ := h
    by_cases hscan : HasPair buf
    · obtain ⟨cb, hsome⟩ := Option.ne_none_iff_exists'.mp hcb
      have hcall : y.cbs.callPart (buf.map RxByte.byte) =
          [.matchCb cb (scan (buf.map RxByte.byte))] := by
        rw [Callbacks.callPart, if_pos (scan_ne_zero.mpr hscan), hsome]
      cases k with
      | zero =>
        refine .inl fun hproper => ?_
        obtain ⟨hawait, hlearn⟩ := (proper_callPart.mp hproper).2 hcb (scan_ne_zero.mpr hscan)
        rcases hlate with hl | hl | ⟨j, hj, -⟩
        · rw [hawait] at hl
          cases hl
        · exact hlearn (hbuf ▸ hl)
        · exact absurd hj (Nat.not_lt_zero j)
      | succ k =>
        -- The callback has been called, so no match command is awaited.
        refine .inr ⟨k + 1, ⟨hpair, .inl ?_⟩, hrank⟩
        rw [hcall]
        exact awaited_snoc
    · cases k with
      | zero => exact absurd (hbuf ▸ hpair) hscan
      | succ k =>
        refine .inr ⟨k + 1, ⟨hpair, ?_⟩, hrank⟩
        dsimp only
        rw [Callbacks.callPart, if_neg (mt scan_ne_zero.mp hscan), List.map_nil, List.append_nil]
        refine hlate.imp_right (Or.imp_right ?_)
        rintro ⟨j, hj, hpj⟩
        cases j with
        | zero => exact absurd (hbuf ▸ hpj) hscan
        | succ j => exact ⟨j + 1, hj, hpj⟩

end Link

/-- With a late pair, `rx_task` alone comes to a call of the match callback that is not proper. -/
theorem late_called {k : Nat} (hcb : x.st.cbs.matchCb ≠ none) (h : x.st.Late k) :
    ∃ n x', link.exec (List.replicate n .rx) x = some x' ∧ ¬Proper x'.st.log := by
  induction hm : x.st.toScan k using Nat.strongRecOn generalizing x k with
  | ind m ih =>
    obtain ⟨s, hs⟩ := h.enabled
    have hst : link.step .rx x = some { x with st := s } := by
      show x.st.rxStep.map _ = _
      rw [hs]
      rfl
    obtain ⟨hcb', hbad | ⟨k', hlate, hlt⟩⟩ := h.rx hcb (rxStep_act hs)
    · exact ⟨1, _, Lib.Lts.exec_cons.mpr ⟨_, hst, rfl⟩, hbad⟩
    · obtain ⟨n, x', hex, hbad⟩ := ih _ (hm ▸ hlt) (x := { x with st := s }) hcb' hlate rfl
      exact ⟨n + 1, x', Lib.Lts.exec_cons.mpr ⟨_, hst, hex⟩, hbad⟩

/-- A byte out of turn. -/
theorem Link.late_receive {y : Link κ} {b : UInt8} {x0 : RxByte}
    (hx0 : x0 ∈ (y.waiting y.last).getLast?) (hp : Plausible x0.byte b)
    (hold : ¬HasPair (y.waiting y.last))
    (hbad : ¬(awaited y.log = true ∧ x0.during ≠ some .learn ∧ y.Clear)) :
    ∃ k, (y.receive b).Late k := by
  have hlast : HasPair ((y.receive b).waiting y.last) := by
    rw [waiting_receive, if_pos rfl]
    exact (hasPair_snoc hold).mpr ⟨x0, hx0, hp⟩
  by_cases hawait : awaited y.log = true
  · by_cases hduring : x0.during = some .learn
    · refine ⟨y.last, hlast, .inr (.inl ?_)⟩
      rw [waiting_receive, if_pos rfl, pairDuring_snoc hold hx0 hp, hduring]
      exact List.mem_cons_self ..
    · have hclear : ¬y.Clear := fun hc => hbad ⟨hawait, hduring, hc⟩
      obtain ⟨k, hk⟩ := not_forall_not.mp hclear
      have hne : k ≠ y.last := by
        rintro rfl
        exact hold hk
      have hk' : HasPair ((y.receive b).waiting k) := by
        rw [waiting_receive, if_neg hne]
        exact hk
      rcases Nat.lt_or_gt_of_ne hne with hlt | hlt
      · exact ⟨y.last, hlast, .inr (.inr ⟨k, hlt, hk'⟩)⟩
      · exact ⟨k, hk', .inr (.inr ⟨y.last, hlt, hlast⟩)⟩
  · exact ⟨y.last, hlast, .inl (Bool.eq_false_iff.mpr hawait)⟩

/-- A learn command while a pair waits. -/
theorem Link.late_send {y : Link κ} (d : Driver) {cmd : Command} (hcmd : cmd = .learn)
    (hno : ¬y.Clear) : ∃ k, Late { y with drv := d, log := y.log ++ [.sent cmd] } k := by
  subst hcmd
  obtain ⟨k, hk⟩ := not_forall_not.mp hno
  refine ⟨k, ?_, .inl awaited_snoc⟩
  rw [waiting_send]
  exact hk

/-- **A step out of turn** leaves a late pair. -/
theorem late_step {l : Step τ κ} (hout : ¬InTurn x l) (hst : link.step l x = some x') :
    x'.st.cbs.matchCb ≠ none ∧ ∃ k, x'.st.Late k := by
  generalize hs : x'.st = s
  have hact := hs ▸ link_act hst
  cases hact with
  | call | rx => exact absurd trivial hout
  | fail hpl herr =>
    simp only [InTurn, hpl, herr] at hout
    exact absurd nofun hout
  | @register t c tx hpl =>
    simp only [InTurn, hpl, Classical.not_imp] at hout
    obtain ⟨hcmd, hcb, hno⟩ := hout
    obtain ⟨k, hlate⟩ := Link.exists_late hno
    obtain ⟨cmd, cb⟩ := c
    cases hcmd
    exact ⟨hcb, k, hlate.congr (Link.waiting_congr rfl rfl) rfl⟩
  | @send t c tx d hpl herr =>
    simp only [InTurn, hpl, Classical.not_imp] at hout
    obtain ⟨hcmd, hcb, -, hno⟩ := hout
    exact ⟨hcb, Link.late_send d hcmd hno⟩
  | receive b =>
    simp only [InTurn, Classical.not_imp, not_forall] at hout
    obtain ⟨hcb, x0, hx0, hp, hold, hbad⟩ := hout
    exact ⟨hcb, Link.late_receive hx0 hp hold hbad⟩

/-- **When learn data triggers no match**: in every run of calls, bytes and passes whose steps are
in turn, the match callback was called only for what came while a match was awaited. After a step
of any other kind `rx_task` comes by its own steps to a call that is not proper. -/
theorem proper_run {x₀ x : System τ κ} (h0 : link.init x₀) (h : link.Run InTurn x₀ x) :
    Proper x.st.log ∧ ∀ (l : Step τ κ) (x' : System τ κ), link.step l x = some x' →
      ¬InTurn x l → ∃ n x'', link.exec (List.replicate n .rx) x' = some x'' ∧
        ¬Proper x''.st.log := by
  have hkept : x.st.Kept := h.invariant kept_step (by rw [h0]; exact Link.start_kept)
  refine ⟨hkept.proper, fun l x' hst hout => ?_⟩
  obtain ⟨hcb, k, hlate⟩ := late_step hout hst
  exact late_called hcb hlate

/-- A call of one task with the callback `()`, to its end. -/
def callSteps (cmd : Command) : List (Step Unit Unit) :=
  [.task (.call () (⟨cmd, some ()⟩, ⟨true, 3⟩)), .task (.step ()), .task (.step ())]

/-- Two bytes come, and `rx_task` does a pass. -/
def rxSteps (b0 b1 : UInt8) : List (Step Unit Unit) :=
  [.receive b0, .receive b1, .rx, .rx, .rx, .rx]

/-- One task, after `hxd019_init`. -/
def oneTask : System Unit Unit := ⟨.start, fun _ => none, []⟩

/-- What is in the reads is in the bytes. -/
theorem Link.clear_of {y : Link κ} (hrx : ¬HasPair y.rx.buf) (hf : ¬HasPair y.fifo) : y.Clear
  | 0 => hrx
  | k + 1 => fun h => hf (h.mono (Lib.block_infix rxBufSize y.fifo k))

omit [DecidableEq τ] in
/-- A byte while no pair waits. -/
theorem inTurn_receive {b : UInt8} (hclear : x.st.Clear)
    (h : ∀ x0 ∈ (x.st.waiting x.st.last).getLast?, Plausible x0.byte b →
      awaited x.st.log = true ∧ x0.during ≠ some .learn) : InTurn x (.receive b) :=
  fun _ x0 hx0 hp _ => ⟨(h x0 hx0 hp).1, (h x0 hx0 hp).2, hclear⟩

/-- A match command and its reply, then a learn command and two bytes of its data that are no
plausible pair. -/
def learned : List (Step Unit Unit) :=
  callSteps .match ++ rxSteps 0x03 0x3E ++ (callSteps .learn ++ rxSteps 0x30 0x00)

theorem proper_run_learned : Proper (link.run learned oneTask).st.log := by
  have hmatch : link.Meets InTurn (callSteps .match) oneTask :=
    ⟨trivial, _, rfl, fun _ _ => (Link.clear_of (by decide) (by decide)).inOrder, _, rfl, nofun, _,
      rfl, trivial⟩
  have hreply : link.Meets InTurn (rxSteps 0x03 0x3E) (link.run (callSteps .match) oneTask) :=
    ⟨inTurn_receive (Link.clear_of (by decide) (by decide)) (by decide), _, rfl,
      inTurn_receive (Link.clear_of (by decide) (by decide)) (by decide), _, rfl, trivial, _, rfl,
      trivial, _, rfl, trivial, _, rfl, trivial, _, rfl, trivial⟩
  have hmatched := (Lib.Lts.exec_run hmatch rfl).trans (Lib.Lts.exec_run hreply rfl)
  have hlearn : link.Meets InTurn (callSteps .learn)
      (link.run (callSteps .match ++ rxSteps 0x03 0x3E) oneTask) :=
    ⟨trivial, _, rfl, nofun, _, rfl, fun _ _ _ => Link.clear_of (by decide) (by decide), _, rfl,
      trivial⟩
  have hdata : link.Meets InTurn (rxSteps 0x30 0x00)
      (link.run (callSteps .match ++ rxSteps 0x03 0x3E ++ callSteps .learn) oneTask) :=
    ⟨inTurn_receive (Link.clear_of (by decide) (by decide)) (by decide), _, rfl,
      inTurn_receive (Link.clear_of (by decide) (by decide)) (by decide), _, rfl, trivial, _, rfl,
      trivial, _, rfl, trivial, _, rfl, trivial, _, rfl, trivial⟩
  exact (proper_run rfl (hmatched.trans ((Lib.Lts.exec_run hlearn rfl).trans
    (Lib.Lts.exec_run hdata rfl)))).1

/-- A match command and its reply, then a learn command and two bytes of its data. -/
theorem not_proper : ¬∀ (steps : List (Step Unit Unit)) (x x' : System Unit Unit), link.init x →
    link.exec steps x = some x' → Proper x'.st.log := by
  intro h
  have hlog := h (callSteps .match ++ rxSteps 0x03 0x3E ++ callSteps .learn ++ rxSteps 0x03 0x3E)
    oneTask _ rfl rfl [.sent .match, .rx (.matchResult 830) [some .match, some .match],
      .rx (.matchCb () 830) [some .match, some .match], .sent .learn,
      .rx (.learnCb () [0x03, 0x3E]) [], .rx (.matchResult 830) [some .learn, some .learn]]
    () 830 [some .learn, some .learn] [] (by decide)
  exact absurd hlog.1 (by decide)

end BleOta.Hxd019
