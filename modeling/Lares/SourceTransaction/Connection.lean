import Mathlib.Logic.Relation
import Mathlib.Data.List.Basic

/-! # A database connection that may fall silent

    What the server does with the statements of one connection, and what the
    client hears of it.

    * The server executes the statements in the order they were sent. A
      transaction in which a statement failed is aborted: it takes no further
      statement and its `COMMIT` is answered `ROLLBACK`.
    * The client hears an answer, an error, or nothing. A statement without an
      answer is in flight: it may take effect at any later time, or never.
    * A destroyed connection takes no further statement. Its in-flight
      statements may still take effect, and its open transaction ends.
-/

namespace Lares.SourceTransaction

/-! ## Section 1: The server -/

/-- Whose transaction a `BEGIN` opens. -/
inductive Transaction where
  | financial | compensation | observer | other
  deriving DecidableEq, Repr

inductive Statement where
  | begin (of : Transaction)
  | query
  | commit
  | rollback
  deriving DecidableEq, Repr

/-- The command tag of an answer. -/
inductive Command where
  | BEGIN | COMMIT | ROLLBACK | other
  deriving DecidableEq, Repr

/-- What has become of the financial transaction. -/
inductive Fate where
  | notBegun | open | rolledBack | committed
  deriving DecidableEq, Repr

/-- The open transaction of the connection (and whether it is aborted), and the
    fate of the financial one. -/
structure Server where
  current : Option (Transaction × Bool)
  fate : Fate
  deriving DecidableEq, Repr

namespace Server

def settle (s : Server) (transaction : Transaction) (fate : Fate) : Server :=
  { current := none, fate := if transaction = .financial then fate else s.fate }

/-- What a statement does and how it is answered; `none` is an error. -/
def execute (s : Server) : Statement → Server × Option Command
  | .begin transaction =>
      match s.current with
      | none =>
          ({ current := some (transaction, false)
             fate := if transaction = .financial then .open else s.fate }, some .BEGIN)
      | some (_, true) => (s, none)
      | some (_, false) => (s, some .BEGIN)
  | .query =>
      match s.current with
      | some (_, true) => (s, none)
      | _ => (s, some .other)
  | .commit =>
      match s.current with
      | none => (s, some .COMMIT)
      | some (transaction, true) => (s.settle transaction .rolledBack, some .ROLLBACK)
      | some (transaction, false) => (s.settle transaction .committed, some .COMMIT)
  | .rollback =>
      match s.current with
      | none => (s, some .ROLLBACK)
      | some (transaction, _) => (s.settle transaction .rolledBack, some .ROLLBACK)

/-- What a statement does that the server refuses. -/
def refuse (s : Server) : Statement → Server
  | .begin _ => s
  | .query => { s with current := s.current.map fun t => (t.1, true) }
  | .commit =>
      match s.current with
      | none => s
      | some (transaction, _) => s.settle transaction .rolledBack
  | .rollback => s

end Server

/-! ## Section 2: The wire -/

/-- The server and the statements that were sent to it and not answered. -/
structure Wire where
  server : Server
  inFlight : List Statement

/-- How a statement is met. -/
inductive Behaviour where
  /-- The server executes it, after everything that was sent before, and answers;
      `rows` says whether the answer has rows. -/
  | executes (rows : Bool)
  /-- The server refuses it, after everything that was sent before. -/
  | refuses
  /-- No answer comes. Of the statements in flight, this one included, the first
      `executed` take effect. The client waits for its own timeout, or the
      connection is lost. -/
  | silent (executed : Nat) (timeout : Bool)

/-- What the client hears. -/
inductive Heard where
  | answer (command : Command) (rows : Bool)
  | error
  | nothing (timeout : Bool)

namespace Wire

def fresh : Wire := ⟨⟨none, .notBegun⟩, []⟩

/-- The first `n` statements in flight take effect. -/
def deliver (w : Wire) (n : Nat) : Wire :=
  { server := (w.inFlight.take n).foldl (fun s statement => (s.execute statement).1) w.server
    inFlight := w.inFlight.drop n }

def deliverAll (w : Wire) : Wire := w.deliver w.inFlight.length

/-- Send one statement. -/
def send (w : Wire) (statement : Statement) : Behaviour → Wire × Heard
  | .executes rows =>
      let w := w.deliverAll
      match w.server.execute statement with
      | (server, some command) => ({ w with server }, .answer command rows)
      | (server, none) => ({ w with server }, .error)
  | .refuses =>
      let w := w.deliverAll
      ({ w with server := w.server.refuse statement }, .error)
  | .silent executed timeout =>
      (({ w with inFlight := w.inFlight ++ [statement] } : Wire).deliver executed,
        .nothing timeout)

/-! ## Section 3: What can become of the financial transaction -/

/-- The financial transaction has this fate for good: it is not open, and no
    statement that opens it is in flight. -/
def Closed (fate : Fate) (w : Wire) : Prop :=
  w.server.fate = fate ∧ (∀ t ∈ w.server.current, t.1 ≠ .financial) ∧
    .begin .financial ∉ w.inFlight

/-- The financial transaction is not committed, and no `COMMIT` is in flight. -/
def Unsent (w : Wire) : Prop := w.server.fate ≠ .committed ∧ .commit ∉ w.inFlight

/-- The connection's transaction is the financial one. -/
def Owned (w : Wire) : Prop :=
  (∃ aborted, w.server.current = some (.financial, aborted)) ∧ w.server.fate = .open ∧
    ∀ statement ∈ w.inFlight, statement = .query

/-- Nothing of the financial transaction has been sent. -/
def Idle (w : Wire) : Prop :=
  w.server.current = none ∧ w.server.fate = .notBegun ∧
    ∀ statement ∈ w.inFlight, statement = .query

theorem idle_fresh : fresh.Idle := ⟨rfl, rfl, by simp [fresh]⟩

theorem Idle.unsent {w : Wire} (h : w.Idle) : w.Unsent := by
  refine ⟨by rw [h.2.1]; decide, fun hin => ?_⟩
  cases h.2.2 _ hin

theorem Idle.closed {w : Wire} (h : w.Idle) : w.Closed .notBegun := by
  refine ⟨h.2.1, by simp [h.1], fun hin => ?_⟩
  cases h.2.2 _ hin

theorem Owned.unsent {w : Wire} (h : w.Owned) : w.Unsent := by
  refine ⟨by rw [h.2.1]; decide, fun hin => ?_⟩
  cases h.2.2 _ hin

/-- An assertion that every statement of a kind keeps, executed or refused. -/
structure Stable (I : Server → Prop) (allowed : Statement → Prop) : Prop where
  execute : ∀ {s statement}, I s → allowed statement → I (s.execute statement).1
  refuse : ∀ {s statement}, I s → allowed statement → I (s.refuse statement)

variable {I : Server → Prop} {allowed : Statement → Prop}

theorem Stable.foldl (h : Stable I allowed) {statements : List Statement}
    (hall : ∀ statement ∈ statements, allowed statement) {s : Server} (hs : I s) :
    I (statements.foldl (fun s statement => (s.execute statement).1) s) := by
  induction statements generalizing s with
  | nil => exact hs
  | cons statement rest ih =>
    exact ih (fun b hb => hall b (List.mem_cons_of_mem _ hb))
      (h.execute hs (hall statement List.mem_cons_self))

/-- Delivery keeps a stable assertion. -/
theorem Stable.deliver (h : Stable I allowed) {w : Wire}
    (hall : ∀ statement ∈ w.inFlight, allowed statement) (hs : I w.server) (n : Nat) :
    I (w.deliver n).server ∧ ∀ statement ∈ (w.deliver n).inFlight, allowed statement :=
  ⟨h.foldl (fun b hb => hall b (List.mem_of_mem_take hb)) hs,
    fun b hb => hall b (List.mem_of_mem_drop hb)⟩

/-- **One more statement** keeps a stable assertion, however it is met. -/
theorem Stable.send (h : Stable I allowed) {w : Wire} {statement : Statement}
    (hall : ∀ b ∈ w.inFlight, allowed b) (hs : I w.server) (hnew : allowed statement)
    (behaviour : Behaviour) :
    I (w.send statement behaviour).1.server ∧
      ∀ b ∈ (w.send statement behaviour).1.inFlight, allowed b := by
  have hnext := h.deliver hall hs w.inFlight.length
  cases behaviour with
  | executes rows =>
    have hdone := h.execute hnext.1 hnew
    unfold Wire.send deliverAll
    dsimp only
    cases hexec : (w.deliver w.inFlight.length).server.execute statement with
    | mk server command =>
      rw [hexec] at hdone
      cases command with
      | none => exact ⟨hdone, hnext.2⟩
      | some command => exact ⟨hdone, hnext.2⟩
  | refuses => exact ⟨h.refuse hnext.1 hnew, hnext.2⟩
  | silent executed timeout =>
    refine h.deliver (w := { w with inFlight := w.inFlight ++ [statement] }) ?_ hs executed
    intro b hb
    rcases List.mem_append.1 hb with hb | hb
    · exact hall b hb
    · rw [List.mem_singleton.1 hb]
      exact hnew

/-! ## Section 4: The three situations are stable -/

theorem closed_stable (fate : Fate) :
    Stable (fun s => s.fate = fate ∧ ∀ t ∈ s.current, t.1 ≠ .financial) (· ≠ .begin .financial) where
  execute := by
    rintro ⟨current, f⟩ statement ⟨hf, hcurrent⟩ hnew
    cases statement <;> cases current with
    | none => simp_all [Server.execute]
    | some t => obtain ⟨transaction, _ | _⟩ := t <;> simp_all [Server.execute, Server.settle]
  refuse := by
    rintro ⟨current, f⟩ statement ⟨hf, hcurrent⟩ hnew
    cases statement <;> cases current <;> simp_all [Server.refuse, Server.settle]

theorem unsent_stable : Stable (fun s => s.fate ≠ .committed) (· ≠ .commit) where
  execute := by
    rintro ⟨current, f⟩ statement hf hnew
    cases statement <;> cases current with
    | none => simp_all [Server.execute] <;> split <;> simp_all
    | some t =>
      obtain ⟨transaction, _ | _⟩ := t <;> simp_all [Server.execute, Server.settle]
        <;> split <;> simp_all
  refuse := by
    rintro ⟨current, f⟩ statement hf hnew
    cases statement <;> cases current <;> simp_all [Server.refuse]

theorem owned_stable :
    Stable (fun s => (∃ aborted, s.current = some (.financial, aborted)) ∧ s.fate = .open)
      (· = .query) where
  execute := by
    rintro ⟨current, f⟩ statement ⟨⟨aborted, hcurrent⟩, hf⟩ rfl
    cases aborted <;> simp_all [Server.execute]
  refuse := by
    rintro ⟨current, f⟩ statement ⟨⟨aborted, hcurrent⟩, hf⟩ rfl
    simp_all [Server.refuse]

theorem idle_stable : Stable (fun s => s.current = none ∧ s.fate = .notBegun) (· = .query) where
  execute := by
    rintro ⟨current, f⟩ statement ⟨rfl, hf⟩ rfl
    exact ⟨rfl, hf⟩
  refuse := by
    rintro ⟨current, f⟩ statement ⟨rfl, hf⟩ rfl
    exact ⟨rfl, hf⟩

theorem Idle.send {w : Wire} (h : w.Idle) (behaviour : Behaviour) :
    (w.send .query behaviour).1.Idle := by
  have := idle_stable.send h.2.2 ⟨h.1, h.2.1⟩ rfl behaviour
  exact ⟨this.1.1, this.1.2, this.2⟩

theorem Closed.send {fate : Fate} {w : Wire} (h : w.Closed fate) {statement : Statement}
    (hnew : statement ≠ .begin .financial) (behaviour : Behaviour) :
    (w.send statement behaviour).1.Closed fate := by
  have := (closed_stable fate).send (fun b hb he => h.2.2 (he ▸ hb)) ⟨h.1, h.2.1⟩ hnew behaviour
  exact ⟨this.1.1, this.1.2, fun hin => this.2 _ hin rfl⟩

theorem Unsent.send {w : Wire} (h : w.Unsent) {statement : Statement} (hnew : statement ≠ .commit)
    (behaviour : Behaviour) : (w.send statement behaviour).1.Unsent := by
  have := unsent_stable.send (fun b hb he => h.2 (he ▸ hb)) h.1 hnew behaviour
  exact ⟨this.1, fun hin => this.2 _ hin rfl⟩

theorem Owned.send {w : Wire} (h : w.Owned) (behaviour : Behaviour) :
    (w.send .query behaviour).1.Owned := by
  have := owned_stable.send h.2.2 ⟨h.1, h.2.1⟩ rfl behaviour
  exact ⟨this.1.1, this.1.2, this.2⟩

/-! ## Section 5: Answers -/

theorem deliverAll_inFlight (w : Wire) : w.deliverAll.inFlight = [] := by
  simp [deliverAll, deliver]

/-- An answer comes from the server, after everything that was sent before. -/
theorem send_answer {w w' : Wire} {statement : Statement} {behaviour : Behaviour}
    {command : Command} {rows : Bool}
    (h : w.send statement behaviour = (w', .answer command rows)) :
    w'.inFlight = [] ∧ w.deliverAll.server.execute statement = (w'.server, some command) := by
  cases behaviour with
  | executes rows =>
    unfold send at h
    dsimp only at h
    cases hexec : w.deliverAll.server.execute statement with
    | mk server answered =>
      rw [hexec] at h
      cases answered with
      | none => cases h
      | some c =>
        cases h
        exact ⟨deliverAll_inFlight w, rfl⟩
  | refuses => cases h
  | silent => cases h

/-- An acknowledged `BEGIN` on an idle connection opens the financial transaction. -/
theorem Idle.begin_answer {w w' : Wire} (h : w.Idle) {behaviour : Behaviour} {command : Command}
    {rows : Bool} (hsend : w.send (.begin .financial) behaviour = (w', .answer command rows)) :
    w'.Owned := by
  obtain ⟨hflight, hexec⟩ := send_answer hsend
  have hidle := (idle_stable.deliver h.2.2 ⟨h.1, h.2.1⟩ w.inFlight.length).1
  have hcurrent : w.deliverAll.server.current = none := hidle.1
  simp only [Server.execute, hcurrent] at hexec
  have hserver : w'.server = _ := (congrArg Prod.fst hexec).symm
  exact ⟨⟨false, by simp [hserver]⟩, by simp [hserver], by simp [hflight]⟩

theorem Owned.deliverAll {w : Wire} (h : w.Owned) : w.deliverAll.Owned := by
  have := owned_stable.deliver h.2.2 ⟨h.1, h.2.1⟩ w.inFlight.length
  exact ⟨this.1.1, this.1.2, this.2⟩

/-- An acknowledged `COMMIT` of the financial transaction committed it. -/
theorem Owned.commit_answer {w w' : Wire} (h : w.Owned) {behaviour : Behaviour} {rows : Bool}
    (hsend : w.send .commit behaviour = (w', .answer .COMMIT rows)) : w'.Closed .committed := by
  obtain ⟨hflight, hexec⟩ := send_answer hsend
  obtain ⟨⟨aborted, hcurrent⟩, -, -⟩ := h.deliverAll
  rw [Server.execute, hcurrent] at hexec
  cases aborted with
  | true =>
    have htag := congrArg Prod.snd hexec
    cases htag
  | false =>
    have hserver := (congrArg Prod.fst hexec).symm
    dsimp only [Server.settle] at hserver
    exact ⟨by rw [hserver]; rfl, by simp [hserver], by simp [hflight]⟩

/-- An acknowledged `ROLLBACK` of the financial transaction ended it. -/
theorem Owned.rollback_answer {w w' : Wire} (h : w.Owned) {behaviour : Behaviour}
    {command : Command} {rows : Bool}
    (hsend : w.send .rollback behaviour = (w', .answer command rows)) :
    w'.Closed .rolledBack := by
  obtain ⟨hflight, hexec⟩ := send_answer hsend
  obtain ⟨⟨aborted, hcurrent⟩, -, -⟩ := h.deliverAll
  rw [Server.execute, hcurrent] at hexec
  have hserver := (congrArg Prod.fst hexec).symm
  dsimp only [Server.settle] at hserver
  exact ⟨by rw [hserver]; rfl, by simp [hserver], by simp [hflight]⟩

/-! ## Section 6: After the release -/

/-- What can still happen on a connection that was released; `destroyed` says whether it
    was released as broken. -/
inductive Later (destroyed : Bool) : Wire → Wire → Prop where
  /-- A statement that was sent takes effect after all. -/
  | deliver {w : Wire} : Later destroyed w (w.deliver 1)
  /-- A connection that was not destroyed is used again, for other transactions. -/
  | reuse {w : Wire} (hpool : destroyed = false) (statement : Statement) (behaviour : Behaviour)
      (hnew : statement ≠ .begin .financial) : Later destroyed w (w.send statement behaviour).1
  /-- The server ends the open transaction of a destroyed connection. -/
  | close {w : Wire} (hgone : destroyed = true) :
      Later destroyed w ⟨(w.server.execute .rollback).1, []⟩

/-- A fate that is settled stays. -/
theorem Closed.later {fate : Fate} {destroyed : Bool} {w w' : Wire} (h : w.Closed fate)
    (hlater : Relation.ReflTransGen (Later destroyed) w w') : w'.Closed fate := by
  induction hlater with
  | refl => exact h
  | tail _ hstep ih =>
    cases hstep with
    | deliver =>
      have := (closed_stable fate).deliver (fun b hb he => ih.2.2 (he ▸ hb)) ⟨ih.1, ih.2.1⟩ 1
      exact ⟨this.1.1, this.1.2, fun hin => this.2 _ hin rfl⟩
    | reuse _ statement behaviour hnew => exact ih.send hnew behaviour
    | close =>
      have := (closed_stable fate).execute ⟨ih.1, ih.2.1⟩ (show Statement.rollback ≠ _ by decide)
      exact ⟨this.1, this.2, List.not_mem_nil⟩

/-- Without its `COMMIT` a transaction on a destroyed connection cannot commit. -/
theorem Unsent.later {w w' : Wire} (h : w.Unsent)
    (hlater : Relation.ReflTransGen (Later true) w w') : w'.Unsent := by
  induction hlater with
  | refl => exact h
  | tail _ hstep ih =>
    cases hstep with
    | deliver =>
      have := unsent_stable.deliver (fun b hb he => ih.2 (he ▸ hb)) ih.1 1
      exact ⟨this.1, fun hin => this.2 _ hin rfl⟩
    | reuse hpool => cases hpool
    | close =>
      exact ⟨unsent_stable.execute ih.1 (show Statement.rollback ≠ _ by decide), List.not_mem_nil⟩

end Wire

end Lares.SourceTransaction
