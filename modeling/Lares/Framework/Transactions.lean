import Lares.Framework.System
import Mathlib.Logic.Function.Basic

/-! # Transactions under row locks

    A database whose transactions lock each row before they read or write it,
    and keep it until they end. Their statements interleave.

    * **Transactions**: what a caller sends, statement by statement. Whatever a
      statement learns outside the locked rows (a clock, a new id, a row that
      is only looked up) is an answer of the environment.
    * **Calls**: code runs before the first statement and after an answered
      COMMIT, on a state that all callers share.
    * **The server**: sessions take their statements in any order. A COMMIT may
      lose its answer, a session may end without one.
    * **The serial machine**: a transaction runs as a whole when it commits.
      Every step of the server is a step of it, or none.
    * **Rules**: `Ensures` goes through a transaction once, for whatever its
      answers are, and speaks about each of its writes and about its COMMIT.
-/

universe u v w x

/-! ## Transactions -/

/-- What is left to do in a transaction. -/
inductive Transaction {K : Type u} (V : K → Type v) (A : Type w) (R : Type x) where
  /-- Everything was written, and this is returned. -/
  | commit (result : R)
  /-- Nothing was written. -/
  | rollback
  /-- `SELECT … FOR UPDATE` -/
  | lock (key : K) (next : V key → Transaction V A R)
  /-- Something outside the database answers: a clock, a random value. -/
  | ask (next : A → Transaction V A R)
  /-- What later locks of it read. -/
  | write (key : K) (value : V key) (next : Transaction V A R)

namespace Transaction

variable {K : Type u} [DecidableEq K] {V : K → Type v} {A : Type w} {R : Type x}

/-- The transaction as a whole, with the answers it gets. -/
def exec : Transaction V A R → (∀ k, V k) → List A → Option ((∀ k, V k) × R)
  | commit result, db, _ => some (db, result)
  | rollback, _, _ => none
  | lock key next, db, answers => (next (db key)).exec db answers
  | ask _, _, [] => none
  | ask next, db, answer :: answers => (next answer).exec db answers
  | write key value next, db, answers => next.exec (Function.update db key value) answers

/-- Whatever is answered, each write is one that `W` allows, and a COMMIT ends in `Q`. -/
def Ensures (W : ∀ k, V k → V k → Prop) (Q : (∀ k, V k) → R → Prop) :
    Transaction V A R → (∀ k, V k) → Prop
  | commit result, db => Q db result
  | rollback, _ => True
  | lock key next, db => (next (db key)).Ensures W Q db
  | ask next, db => ∀ answer, (next answer).Ensures W Q db
  | write key value next, db =>
      W key (db key) value ∧ next.Ensures W Q (Function.update db key value)

/-- The part of a transaction that has run, and what is left. -/
inductive Leads (tx : Transaction V A R) (db : ∀ k, V k) :
    List A → Transaction V A R → (∀ k, V k) → Prop
  /-- Nothing has run. -/
  | here : Leads tx db [] tx db
  /-- A row was locked and read. -/
  | lock {answers key next db'} (h : Leads tx db answers (lock key next) db') :
      Leads tx db answers (next (db' key)) db'
  /-- The outside has answered. -/
  | ask {answers next db'} (answer : A) (h : Leads tx db answers (ask next) db') :
      Leads tx db (answers ++ [answer]) (next answer) db'
  /-- A row was written. -/
  | write {answers key value next db'} (h : Leads tx db answers (write key value next) db') :
      Leads tx db answers next (Function.update db' key value)

variable {tx rest : Transaction V A R} {db db' : ∀ k, V k} {answers : List A}
  {W : ∀ k, V k → V k → Prop} {Q : (∀ k, V k) → R → Prop}

/-- The rest does what the whole does. -/
theorem Leads.exec (h : Leads tx db answers rest db') (more : List A) :
    tx.exec db (answers ++ more) = rest.exec db' more := by
  induction h generalizing more with
  | here => rfl
  | lock _ ih => exact ih more
  | ask answer _ ih =>
    rw [List.append_assoc, List.singleton_append]
    exact ih (answer :: more)
  | write _ ih => exact ih more

/-- The rest ensures what the whole ensures. -/
theorem Leads.ensures (h : Leads tx db answers rest db') (htx : tx.Ensures W Q db) :
    rest.Ensures W Q db' := by
  induction h with
  | here => exact htx
  | lock _ ih => exact ih
  | ask answer _ ih => exact ih answer
  | write _ ih => exact ih.2

/-- A COMMIT ends in `Q`. -/
theorem Ensures.exec {result : R} (h : tx.Ensures W Q db)
    (hexec : tx.exec db answers = some (db', result)) : Q db' result := by
  induction tx generalizing db answers with
  | commit result' =>
    cases hexec
    exact h
  | rollback => cases hexec
  | lock key next ih => exact ih (db key) h hexec
  | ask next ih =>
    cases answers with
    | nil => cases hexec
    | cons answer answers => exact ih answer (h answer) hexec
  | write key value next ih => exact ih h.2 hexec

theorem Ensures.mono {W' : ∀ k, V k → V k → Prop} {Q' : (∀ k, V k) → R → Prop}
    (h : tx.Ensures W Q db) (hW : ∀ k old new, W k old new → W' k old new)
    (hQ : ∀ db result, Q db result → Q' db result) : tx.Ensures W' Q' db := by
  induction tx generalizing db with
  | commit result => exact hQ db result h
  | rollback => trivial
  | lock key next ih => exact ih (db key) h
  | ask next ih => exact fun answer => ih answer (h answer)
  | write key value next ih => exact ⟨hW key _ value h.1, ih h.2⟩

end Transaction

/-- The database with what a session has written over it. -/
def overlay {K : Type u} {V : K → Type v} (own : ∀ k, Option (V k)) (db : ∀ k, V k) : ∀ k, V k :=
  fun k => (own k).getD (db k)

theorem overlay_update {K : Type u} [DecidableEq K] {V : K → Type v} (own : ∀ k, Option (V k))
    (db : ∀ k, V k) (key : K) (value : V key) :
    overlay (Function.update own key (some value)) db =
      Function.update (overlay own db) key value := by
  funext k
  by_cases hk : k = key
  · subst hk
    unfold overlay
    rw [Function.update_self, Function.update_self]
    rfl
  · unfold overlay
    rw [Function.update_of_ne hk, Function.update_of_ne hk]

/-! ## Callers -/

/-- The code around the transactions. -/
structure Callers {K : Type u} (V : K → Type v) (A R C L : Type*) where
  /-- Before the first statement. Without a transaction this is all; a call may also throw. -/
  start : L → C → Option (L × Option (Transaction V A R))
  /-- After an answered COMMIT. -/
  finish : C → R → L → L

namespace Callers

variable {K : Type u} [DecidableEq K] {V : K → Type v} {A R C L : Type*}

/-! ## The serial machine -/

/-- Committed rows, shared state, and the transactions that have started. -/
structure Serial (V : K → Type v) (A R C L : Type*) where
  db : ∀ k, V k
  shared : L
  started : Nat → Option (C × Transaction V A R)

inductive SerialLabel (A C : Type*) where
  | call (session : Nat) (call : C)
  | commit (session : Nat) (answers : List A) (answered : Bool)
  | abort (session : Nat)

/-- A transaction runs as a whole when it commits. -/
def serialNext (callers : Callers V A R C L) (s : Serial V A R C L) :
    SerialLabel A C → Option (Serial V A R C L)
  | .call session call =>
      if (s.started session).isSome then none
      else
        match callers.start s.shared call with
        | none => some s
        | some (shared, none) => some { s with shared := shared }
        | some (shared, some tx) => some { s with
            shared := shared
            started := Function.update s.started session (some (call, tx)) }
  | .commit session answers answered =>
      match s.started session with
      | none => none
      | some (call, tx) =>
          match tx.exec s.db answers with
          | none => none
          | some (db, result) => some {
              db := db
              shared := if answered then callers.finish call result s.shared else s.shared
              started := Function.update s.started session none }
  | .abort session =>
      if (s.started session).isSome then
        some { s with started := Function.update s.started session none }
      else none

/-! ## The server -/

/-- A transaction under way. -/
structure Session (V : K → Type v) (A R C : Type*) where
  /-- What was asked for. -/
  call : C
  /-- The whole of it. -/
  transaction : Transaction V A R
  /-- What has not run. -/
  rest : Transaction V A R
  /-- What the outside has answered. -/
  answers : List A
  /-- What it has written, and nobody else sees. -/
  own : ∀ k, Option (V k)

structure Server (V : K → Type v) (A R C L : Type*) where
  /-- What is committed. -/
  db : ∀ k, V k
  shared : L
  /-- The transactions under way. -/
  sessions : Nat → Option (Session V A R C)
  /-- Which session holds the row. -/
  locks : K → Option Nat

inductive ServerLabel (A C : Type*) where
  | call (session : Nat) (call : C)
  /-- One statement; the answer counts only where one is asked for. -/
  | statement (session : Nat) (answer : A)
  | commit (session : Nat) (answered : Bool)
  /-- A refusal, a deadlock, a COMMIT that failed or a crash. -/
  | abort (session : Nat)

namespace Server

/-- The row is the session's, or nobody's. -/
def free (s : Server V A R C L) (session : Nat) (key : K) : Bool :=
  s.locks key == none || s.locks key == some session

def set (s : Server V A R C L) (session : Nat) (x : Session V A R C) : Server V A R C L :=
  { s with sessions := Function.update s.sessions session (some x) }

def take (s : Server V A R C L) (session : Nat) (key : K) : Server V A R C L :=
  { s with locks := Function.update s.locks key (some session) }

/-- The session ends, and its locks with it. -/
def leave (s : Server V A R C L) (session : Nat) : Server V A R C L :=
  { s with
    sessions := Function.update s.sessions session none
    locks := fun k => if s.locks k = some session then none else s.locks k }

end Server

def serverNext (callers : Callers V A R C L) (s : Server V A R C L) :
    ServerLabel A C → Option (Server V A R C L)
  | .call session call =>
      if (s.sessions session).isSome then none
      else
        match callers.start s.shared call with
        | none => some s
        | some (shared, none) => some { s with shared := shared }
        | some (shared, some tx) =>
            some ({ s with shared := shared }.set session ⟨call, tx, tx, [], fun _ => none⟩)
  | .statement session answer =>
      match s.sessions session with
      | none => none
      | some x =>
          match x.rest with
          | .lock key next =>
              if s.free session key then
                some ((s.take session key).set session
                  { x with rest := next (overlay x.own s.db key) })
              else none
          | .ask next =>
              some (s.set session { x with rest := next answer, answers := x.answers ++ [answer] })
          | .write key value next =>
              if s.free session key then
                some ((s.take session key).set session
                  { x with rest := next, own := Function.update x.own key (some value) })
              else none
          | _ => none
  | .commit session answered =>
      match s.sessions session with
      | none => none
      | some x =>
          match x.rest with
          | .commit result =>
              some ({ s with
                db := overlay x.own s.db
                shared := if answered then callers.finish x.call result s.shared
                  else s.shared }.leave session)
          | _ => none
  | .abort session => if (s.sessions session).isSome then some (s.leave session) else none

/-- A server begins with no sessions. -/
def server (callers : Callers V A R C L) (init : (∀ k, V k) → L → Prop) :
    System (Server V A R C L) (ServerLabel A C) where
  init s := init s.db s.shared ∧ (∀ i, s.sessions i = none) ∧ ∀ k, s.locks k = none
  next := callers.serverNext

def serial (callers : Callers V A R C L) (init : (∀ k, V k) → L → Prop) :
    System (Serial V A R C L) (SerialLabel A C) where
  init s := init s.db s.shared ∧ ∀ i, s.started i = none
  next := callers.serialNext

/-! ## Serializability -/

/-- The server without the statements that have run. -/
def Server.erase (s : Server V A R C L) : Serial V A R C L where
  db := s.db
  shared := s.shared
  started := fun i => (s.sessions i).map fun x => (x.call, x.transaction)

/-- What a session has read it can still read: on every database that has the locked rows as they
    are, the transaction gets where the session is. -/
structure Replays (s : Server V A R C L) (session : Nat) (x : Session V A R C) : Prop where
  own : ∀ k, x.own k ≠ none → s.locks k = some session
  replay : ∀ db : ∀ k, V k, (∀ k, s.locks k = some session → db k = s.db k) →
    x.transaction.Leads db x.answers x.rest (overlay x.own db)

def Serializable (s : Server V A R C L) : Prop :=
  ∀ i x, s.sessions i = some x → Replays s i x

omit [DecidableEq K] in
theorem erase_set (s : Server V A R C L) (i : Nat) {x y : Session V A R C}
    (hx : s.sessions i = some x) (hcall : y.call = x.call)
    (htx : y.transaction = x.transaction) : (s.set i y).erase = s.erase := by
  unfold Server.erase Server.set
  congr 1
  funext j
  dsimp only
  by_cases hj : j = i
  · subst hj
    rw [Function.update_self, hx, Option.map_some, Option.map_some, hcall, htx]
  · rw [Function.update_of_ne hj]

omit [DecidableEq K] in
theorem erase_leave (s : Server V A R C L) (i : Nat) :
    (s.leave i).erase = { s.erase with started := Function.update s.erase.started i none } := by
  unfold Server.erase Server.leave
  congr 1
  funext j
  dsimp only
  by_cases hj : j = i
  · subst hj
    rw [Function.update_self, Function.update_self]
    rfl
  · rw [Function.update_of_ne hj, Function.update_of_ne hj]

/-- A session that stays: its rows are as they were, and it has not run. -/
theorem Replays.stay {s t : Server V A R C L} {i : Nat} {x : Session V A R C}
    (h : Replays s i x) (hlocks : ∀ k, s.locks k = some i → t.locks k = some i)
    (hdb : ∀ k, s.locks k = some i → t.db k = s.db k) : Replays t i x where
  own := fun k hk => hlocks k (h.own k hk)
  replay := by
    intro db hsame
    refine h.replay db ?_
    intro k hk
    rw [hsame k (hlocks k hk), hdb k hk]

/-- A statement of one session leaves the others as they are. -/
theorem Serializable.set {s t : Server V A R C L} {i : Nat} {x : Session V A R C}
    (h : Serializable s) (hsessions : t.sessions = s.sessions) (hdb : t.db = s.db)
    (hlocks : ∀ j k, j ≠ i → s.locks k = some j → t.locks k = some j)
    (hx : Replays (t.set i x) i x) : Serializable (t.set i x) := by
  intro j y hy
  by_cases hj : j = i
  · subst hj
    rw [show (t.set j x).sessions j = some x from Function.update_self ..] at hy
    cases hy
    exact hx
  · rw [show (t.set i x).sessions j = t.sessions j from Function.update_of_ne hj .., hsessions] at hy
    refine (h j y hy).stay (fun k hk => hlocks j k hj hk) ?_
    intro k _
    show t.db k = s.db k
    rw [hdb]

/-- A row that is taken was nobody's or its own. -/
theorem take_locks {s : Server V A R C L} {i : Nat} {key : K} (hfree : s.free i key = true)
    (j : Nat) (k : K) (hj : j ≠ i) (hk : s.locks k = some j) :
    (s.take i key).locks k = some j := by
  show Function.update s.locks key (some i) k = some j
  by_cases hkey : k = key
  · subst hkey
    unfold Server.free at hfree
    rw [hk, Bool.or_eq_true, beq_iff_eq, beq_iff_eq] at hfree
    rcases hfree with hnone | hown
    · cases hnone
    · exact absurd (Option.some.inj hown) hj
  · rw [Function.update_of_ne hkey]
    exact hk

theorem take_own {s : Server V A R C L} {i : Nat} {key k : K} (hk : s.locks k = some i) :
    (s.take i key).locks k = some i := by
  show Function.update s.locks key (some i) k = some i
  by_cases hkey : k = key
  · subst hkey
    rw [Function.update_self]
  · rw [Function.update_of_ne hkey]
    exact hk

/-- Whoever leaves takes nobody's locks but its own. -/
theorem Serializable.leave {s t : Server V A R C L} {i : Nat} (h : Serializable s)
    (hsessions : t.sessions = s.sessions) (hlocks : t.locks = s.locks)
    (hdb : ∀ k, s.locks k ≠ some i → t.db k = s.db k) : Serializable (t.leave i) := by
  intro j y hy
  by_cases hj : j = i
  · subst hj
    rw [show (t.leave j).sessions j = none from Function.update_self ..] at hy
    cases hy
  · rw [show (t.leave i).sessions j = t.sessions j from Function.update_of_ne hj ..,
      hsessions] at hy
    have hother : ∀ k, s.locks k = some j → s.locks k ≠ some i := by
      intro k hk heq
      rw [hk] at heq
      exact hj (Option.some.inj heq)
    refine (h j y hy).stay ?_ fun k hk => hdb k (hother k hk)
    intro k hk
    show (if t.locks k = some i then none else t.locks k) = some j
    rw [hlocks, if_neg (hother k hk), hk]

theorem serializable_call {callers : Callers V A R C L} {s t : Server V A R C L} {i call}
    (h : Serializable s) (hstep : callers.serverNext s (.call i call) = some t) :
    Serializable t ∧
      (t.erase = s.erase ∨ ∃ l, callers.serialNext s.erase l = some t.erase) := by
  simp only [serverNext] at hstep
  split at hstep
  · cases hstep
  · next hfree =>
    have hsession : s.sessions i = none := by
      rwa [Option.not_isSome_iff_eq_none] at hfree
    have hstarted : s.erase.started i = none := by
      show (s.sessions i).map _ = none
      rw [hsession]
      rfl
    split at hstep
    · cases hstep
      -- Nothing is started, nothing is seen.
      exact ⟨h, .inl rfl⟩
    · -- The call is answered at once, and both do the same.
      next shared heq =>
      cases hstep
      refine ⟨fun j x hx => (h j x hx).stay (fun _ hk => hk) fun _ _ => rfl,
        .inr ⟨.call i call, ?_⟩⟩
      simp only [serialNext]
      rw [hstarted, if_neg (by simp), show s.erase.shared = s.shared from rfl, heq]
      rfl
    · -- A session starts with nothing locked; erased, it is a transaction that has not run.
      next shared tx heq =>
      cases hstep
      refine ⟨h.set (t := { s with shared := shared }) rfl rfl (fun _ _ _ hk => hk) ?_,
        .inr ⟨.call i call, ?_⟩⟩
      · exact ⟨fun k hk => absurd rfl hk, fun db _ => .here⟩
      · simp only [serialNext]
        rw [hstarted, if_neg (by simp), show s.erase.shared = s.shared from rfl, heq]
        unfold Server.erase Server.set
        dsimp only
        congr 2
        funext j
        by_cases hj : j = i
        · subst hj
          rw [Function.update_self, Function.update_self]
          rfl
        · rw [Function.update_of_ne hj, Function.update_of_ne hj]

theorem serializable_statement {callers : Callers V A R C L} {s t : Server V A R C L} {i answer}
    (h : Serializable s) (hstep : callers.serverNext s (.statement i answer) = some t) :
    Serializable t ∧
      (t.erase = s.erase ∨ ∃ l, callers.serialNext s.erase l = some t.erase) := by
  simp only [serverNext] at hstep
  split at hstep
  · cases hstep
  · next x hx =>
    have hreplays := h i x hx
    split at hstep
    · next key next hrest =>
      split at hstep
      · next hfree =>
        cases hstep
        refine ⟨h.set (t := s.take i key) rfl rfl (take_locks hfree) ?_,
          .inl (erase_set (s.take i key) i hx rfl rfl)⟩
        refine ⟨fun k hk => take_own (hreplays.own k hk), ?_⟩
        intro db hsame
        -- the row that is read now is read again by whoever replays
        have hkey : overlay x.own s.db key = overlay x.own db key := by
          unfold overlay
          rw [hsame key (Function.update_self ..)]
          rfl
        have hleads := hreplays.replay db fun k hk => hsame k (take_own hk)
        rw [hrest] at hleads
        show x.transaction.Leads db x.answers (next (overlay x.own s.db key)) (overlay x.own db)
        rw [hkey]
        exact hleads.lock
      · cases hstep
    · next next hrest =>
      cases hstep
      refine ⟨h.set rfl rfl (fun _ _ _ hk => hk) ?_, .inl (erase_set s i hx rfl rfl)⟩
      refine ⟨hreplays.own, ?_⟩
      intro db hsame
      have hleads := hreplays.replay db hsame
      rw [hrest] at hleads
      exact hleads.ask answer
    · next key value next hrest =>
      split at hstep
      · next hfree =>
        cases hstep
        refine ⟨h.set (t := s.take i key) rfl rfl (take_locks hfree) ?_,
          .inl (erase_set (s.take i key) i hx rfl rfl)⟩
        refine ⟨?_, ?_⟩
        · intro k hk
          by_cases hkey : k = key
          · subst hkey
            exact Function.update_self ..
          · refine take_own (hreplays.own k ?_)
            intro hnone
            exact hk ((Function.update_of_ne hkey ..).trans hnone)
        · intro db hsame
          have hleads := hreplays.replay db fun k hk => hsame k (take_own hk)
          rw [hrest] at hleads
          show x.transaction.Leads db x.answers next
            (overlay (Function.update x.own key (some value)) db)
          rw [overlay_update]
          exact hleads.write
      · cases hstep
    · cases hstep

theorem serializable_commit {callers : Callers V A R C L} {s t : Server V A R C L} {i answered}
    (h : Serializable s) (hstep : callers.serverNext s (.commit i answered) = some t) :
    Serializable t ∧
      (t.erase = s.erase ∨ ∃ l, callers.serialNext s.erase l = some t.erase) := by
  simp only [serverNext] at hstep
  split at hstep
  · cases hstep
  · next x hx =>
    have hreplays := h i x hx
    split at hstep
    · next result hrest =>
      cases hstep
      refine ⟨h.leave rfl rfl ?_, .inr ⟨.commit i x.answers answered, ?_⟩⟩
      · intro k hk
        have hnone : x.own k = none := by
          by_contra hsome
          exact hk (hreplays.own k hsome)
        show (x.own k).getD (s.db k) = s.db k
        rw [hnone]
        rfl
      · have hexec := (hreplays.replay s.db fun _ _ => rfl).exec []
        rw [List.append_nil, hrest] at hexec
        rw [erase_leave]
        simp only [serialNext]
        rw [show s.erase.started i = some (x.call, x.transaction) by
          show (s.sessions i).map _ = _
          rw [hx]
          rfl]
        dsimp only
        rw [show s.erase.db = s.db from rfl, hexec]
        rfl
    · cases hstep

theorem serializable_abort {callers : Callers V A R C L} {s t : Server V A R C L} {i}
    (h : Serializable s) (hstep : callers.serverNext s (.abort i) = some t) :
    Serializable t ∧
      (t.erase = s.erase ∨ ∃ l, callers.serialNext s.erase l = some t.erase) := by
  simp only [serverNext] at hstep
  split at hstep
  · next hsome =>
    cases hstep
    refine ⟨h.leave rfl rfl fun _ _ => rfl, .inr ⟨.abort i, ?_⟩⟩
    rw [erase_leave]
    simp only [serialNext]
    rw [if_pos (by
      show ((s.sessions i).map _).isSome = true
      rw [Option.isSome_map]
      exact hsome)]
  · cases hstep

/-- **One step** of the server is a step of the serial machine, or none. -/
theorem serializable_step (callers : Callers V A R C L) {s t : Server V A R C L}
    {label : ServerLabel A C} (h : Serializable s) (hstep : callers.serverNext s label = some t) :
    Serializable t ∧
      (t.erase = s.erase ∨ ∃ l, callers.serialNext s.erase l = some t.erase) := by
  cases label with
  | call i call => exact serializable_call h hstep
  | statement i answer => exact serializable_statement h hstep
  | commit i answered => exact serializable_commit h hstep
  | abort i => exact serializable_abort h hstep

theorem serializable_init {callers : Callers V A R C L} {init : (∀ k, V k) → L → Prop}
    {s : Server V A R C L} (hinit : (callers.server init).init s) :
    Serializable s ∧ (callers.serial init).init s.erase := by
  refine ⟨?_, hinit.1, ?_⟩
  · intro i x hx
    rw [hinit.2.1 i] at hx
    cases hx
  · intro i
    show (s.sessions i).map _ = none
    rw [hinit.2.1 i]
    rfl

/-- **Invariant rule**: what the serial machine preserves holds of the server, however its
    sessions interleave. -/
theorem server_invariant (callers : Callers V A R C L) {init : (∀ k, V k) → L → Prop}
    {I : Serial V A R C L → Prop} (hinit : ∀ s, (callers.serial init).init s → I s)
    (hstep : ∀ s label t, I s → callers.serialNext s label = some t → I t)
    {s t : Server V A R C L} {labels : List (ServerLabel A C)}
    (hs : (callers.server init).init s) (hrun : (callers.server init).run s labels = some t) :
    Serializable t ∧ I t.erase := by
  obtain ⟨hserial, herase⟩ := serializable_init hs
  refine (callers.server init).run_invariant (I := fun u => Serializable u ∧ I u.erase) ?_
    ⟨hserial, hinit _ herase⟩ hrun
  intro u label u' hu hnext
  obtain ⟨hserial', hsame | ⟨l, hl⟩⟩ := callers.serializable_step hu.1 hnext
  · exact ⟨hserial', hsame ▸ hu.2⟩
  · exact ⟨hserial', hstep _ l _ hu.2 hl⟩

/-- **Relation rule**: a preorder that every step of the serial machine respects relates the two
    ends of every run of the server. -/
theorem server_relation (callers : Callers V A R C L) {init : (∀ k, V k) → L → Prop}
    {I : Serial V A R C L → Prop} {Q : Serial V A R C L → Serial V A R C L → Prop}
    (hrefl : ∀ s, Q s s) (htrans : ∀ s t u, Q s t → Q t u → Q s u)
    (hinit : ∀ s, (callers.serial init).init s → I s)
    (hstep : ∀ s label t, I s → callers.serialNext s label = some t → I t ∧ Q s t)
    {s t u : Server V A R C L} {ls ms : List (ServerLabel A C)}
    (hs : (callers.server init).init s) (ht : (callers.server init).run s ls = some t)
    (hu : (callers.server init).run t ms = some u) : Q t.erase u.erase := by
  have hI := callers.server_invariant hinit
    (fun s label t hI hnext => (hstep s label t hI hnext).1) hs ht
  refine (callers.server init).run_relation (I := fun v => Serializable v ∧ I v.erase)
    (R := fun v w => Q v.erase w.erase) (fun v => hrefl v.erase)
    (fun v w z => htrans v.erase w.erase z.erase) ?_ ?_ hI hu
  · intro v label w hv hnext
    obtain ⟨hserial, hsame | ⟨l, hl⟩⟩ := callers.serializable_step hv.1 hnext
    · exact ⟨hserial, hsame ▸ hv.2⟩
    · exact ⟨hserial, (hstep _ l _ hv.2 hl).1⟩
  · intro v label w hv hnext
    obtain ⟨-, hsame | ⟨l, hl⟩⟩ := callers.serializable_step hv.1 hnext
    · show Q v.erase w.erase
      rw [hsame]
      exact hrefl _
    · exact (hstep _ l _ hv.2 hl).2

/-- What a started transaction ensures on the committed rows, its rest ensures under way. -/
theorem Serializable.ensures {s : Server V A R C L} {i : Nat} {x : Session V A R C}
    {W : ∀ k, V k → V k → Prop} {Q : (∀ k, V k) → R → Prop} (h : Serializable s)
    (hx : s.sessions i = some x) (htx : x.transaction.Ensures W Q s.db) :
    x.rest.Ensures W Q (overlay x.own s.db) :=
  ((h i x hx).replay s.db fun _ _ => rfl).ensures htx

end Callers
