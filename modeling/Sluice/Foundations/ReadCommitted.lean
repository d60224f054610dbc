import Mathlib.Data.List.Nodup
import Mathlib.Data.List.Perm.Basic
import Sluice.Foundations.Machine
import Sluice.Foundations.Pool

/-
  A database that runs transactions at READ COMMITTED.

  A session executes the statements of one call in order. A
  statement sees the rows committed when it runs, overlaid
  with the session's own writes. The rows it locks stay
  locked until the session ends; a statement that needs a
  row locked by another session is not enabled, and a
  statement may also skip such rows. The writes of a session
  reach the committed state at its commit, and a session may
  be rolled back at any time.

  Key definitions include:
    * `Engine`
    * `Session`
    * `Commit`
    * `State`
    * `Label`
    * `Engine.machine`
    * `Engine.Effect`

  Key theorems include:
    * `Engine.performAll_look`
    * `Engine.effect_of_step`
    * `Engine.reachableWith_invariant`
    * `Engine.step_db` and `Engine.step_calls`
    * `Engine.leads_single`
    * `Engine.timed_invariant` and `Engine.commits_invariant`
    * `Engine.history_invariant`
    * `Engine.calls_invariant`
    * `Engine.locks_disjoint`
    * `Engine.reachable_sessions_invariant` and
      `Engine.sessions_invariant`
    * `Engine.nonces_nodup` and `Engine.nonce_once`
    * `Engine.call_of_nonce`
-/

------------------------------------------------------------
-- Engines And Sessions
------------------------------------------------------------

namespace Foundations

namespace ReadCommitted

/-
  What one statement does: it makes the call end without a
  commit, or it adds pending writes and row locks.
-/
inductive Outcome (W K : Type)
| abort : Outcome W K
| proceed : List W → List K → Outcome W K

/-
  `perform` carries out one pending write. `statement` runs
  the statement number `pc` of a call: it is given the time
  at which the transaction began, a resolution `x` of what
  the database leaves open (such as a scan order), the rows
  that other sessions have locked, and the session's view.
  `admits` says which calls may be made, given the time and
  all calls made so far.
-/
structure Engine (D W K C X : Type) where
  perform : D → W → D
  length : C → Nat
  statement :
    C → Nat → Int → X → (K → Bool) → D → Outcome W K
  admits : Int → List C → C → Bool

/- A transaction in progress. -/
structure Session (W K C : Type) where
  call : C
  start : Int
  pc : Nat
  writes : List W
  locks : List K

/- A finished transaction and the states around its commit. -/
structure Commit (D C : Type) where
  call : C
  start : Int
  before : D
  after : D

/-
  The committed database, the time, the transactions in
  progress, all calls ever made and all commits, newest
  first.
-/
structure State (D W K C : Type) where
  db : D
  clock : Int
  sessions : List (Session W K C)
  calls : List C
  history : List (Commit D C)

/- Sessions are addressed by their position. -/
inductive Label (C X : Type)
| begin : C → Label C X
| statement : Nat → X → Label C X
| commit : Nat → Label C X
| rollback : Nat → Label C X
| tick : Nat → Label C X

namespace Session

variable {W K C : Type}

/- A session whose call has not run a statement. -/
def opened
    (call : C)
    (clock : Int) :
    Session W K C where
  call := call
  start := clock
  pc := 0
  writes := []
  locks := []

/- A session after one more statement. -/
def advance
    (e : Session W K C)
    (writes : List W)
    (locks : List K) :
    Session W K C :=
  { e with
    pc := e.pc + 1
    writes := e.writes ++ writes
    locks := e.locks ++ locks }

@[simp] theorem advance_call
    (e : Session W K C)
    (writes : List W)
    (locks : List K) :
    (e.advance writes locks).call = e.call :=
  rfl

@[simp] theorem advance_start
    (e : Session W K C)
    (writes : List W)
    (locks : List K) :
    (e.advance writes locks).start = e.start :=
  rfl

@[simp] theorem advance_pc
    (e : Session W K C)
    (writes : List W)
    (locks : List K) :
    (e.advance writes locks).pc = e.pc + 1 :=
  rfl

@[simp] theorem advance_writes
    (e : Session W K C)
    (writes : List W)
    (locks : List K) :
    (e.advance writes locks).writes =
      e.writes ++ writes :=
  rfl

@[simp] theorem advance_locks
    (e : Session W K C)
    (writes : List W)
    (locks : List K) :
    (e.advance writes locks).locks = e.locks ++ locks :=
  rfl

end Session

/- Whether one of the sessions has locked a row. -/
def lockedBy
    {W K C : Type}
    [DecidableEq K]
    (sessions : List (Session W K C))
    (k : K) :
    Bool :=
  sessions.any (fun e => decide (k ∈ e.locks))

theorem lockedBy_eq_false_iff
    {W K C : Type}
    [DecidableEq K]
    {sessions : List (Session W K C)}
    {k : K} :
    lockedBy sessions k = false ↔
      ∀ e ∈ sessions, k ∉ e.locks := by
  simp [lockedBy, List.any_eq_false]

namespace Engine

section

variable {D W K C X : Type}
variable [DecidableEq K]

/- Carry out pending writes in order. -/
def performAll
    (E : Engine D W K C X)
    (db : D)
    (writes : List W) :
    D :=
  writes.foldl E.perform db

omit [DecidableEq K] in
@[simp] theorem performAll_cons
    (E : Engine D W K C X)
    (db : D)
    (w : W)
    (writes : List W) :
    E.performAll db (w :: writes) =
      E.performAll (E.perform db w) writes :=
  rfl

/-
  What is seen of the state after several writes, when one
  write leaves it, updates it, or adds it where it is absent.
-/
omit [DecidableEq K] in
theorem performAll_look
    (E : Engine D W K C X)
    {V : Type}
    (look : D → Option V)
    (updates inserts : W → V → Prop)
    (hOne :
      ∀ db w, look (E.perform db w) = look db ∨
        ∃ v, look (E.perform db w) = some v ∧
          (updates w v ∨ (inserts w v ∧ look db = none)))
    (db : D)
    (writes : List W) :
    look (E.performAll db writes) = look db ∨
      ∃ v, look (E.performAll db writes) = some v ∧
        ((∃ w ∈ writes, updates w v) ∨
          ((∃ w ∈ writes, inserts w v) ∧
            look db = none)) := by
  induction writes generalizing db with
  | nil => exact .inl rfl
  | cons w writes ih =>
      rw [performAll_cons]
      rcases ih (E.perform db w) with hSame | hLater
      · rw [hSame]
        rcases hOne db w with hKept | ⟨v, hSome, hWrite⟩
        · exact .inl hKept
        · refine .inr ⟨v, hSome, ?_⟩
          rcases hWrite with hUpdate | ⟨hInsert, hNone⟩
          · exact .inl ⟨w, List.mem_cons_self, hUpdate⟩
          · exact .inr
              ⟨⟨w, List.mem_cons_self, hInsert⟩, hNone⟩
      · rcases hLater with ⟨v, hSome, hWrite⟩
        refine .inr ⟨v, hSome, ?_⟩
        rcases hWrite with
          ⟨w', hMem, hUpdate⟩ | ⟨⟨w', hMem, hInsert⟩, hNone⟩
        · exact .inl
            ⟨w', List.mem_cons_of_mem _ hMem, hUpdate⟩
        · refine .inr
            ⟨⟨w', List.mem_cons_of_mem _ hMem, hInsert⟩, ?_⟩
          rcases hOne db w with hKept | ⟨v', hSome', _⟩
          · rw [← hKept]
            exact hNone
          · rw [hSome'] at hNone
            cases hNone

/- What the commit of a session does. -/
def entry
    (E : Engine D W K C X)
    (db : D)
    (e : Session W K C) :
    Commit D C where
  call := e.call
  start := e.start
  before := db
  after := E.performAll db e.writes

section

variable (E : Engine D W K C X)
variable (db : D)
variable (e : Session W K C)

omit [DecidableEq K] in
@[simp] theorem entry_call :
    (E.entry db e).call = e.call :=
  rfl

omit [DecidableEq K] in
@[simp] theorem entry_before :
    (E.entry db e).before = db :=
  rfl

omit [DecidableEq K] in
@[simp] theorem entry_after :
    (E.entry db e).after = E.performAll db e.writes :=
  rfl

end

/- The state after a session's commit. -/
def committed
    (E : Engine D W K C X)
    (s : State D W K C)
    (e : Session W K C)
    (others : List (Session W K C)) :
    State D W K C :=
  { s with
    db := E.performAll s.db e.writes
    sessions := others
    history := E.entry s.db e :: s.history }

/- One step of the database. -/
def step
    (E : Engine D W K C X) :
    Label C X →
      State D W K C → Option (State D W K C)
| .begin call, s =>
    if E.admits s.clock s.calls call = true then
      some
        { s with
          sessions :=
            Session.opened call s.clock :: s.sessions
          calls := call :: s.calls }
    else none
| .statement i x, s =>
    match s.sessions[i]? with
    | none => none
    | some e =>
        if e.pc < E.length e.call then
          match
            E.statement e.call e.pc e.start x
              (lockedBy (s.sessions.eraseIdx i))
              (E.performAll s.db e.writes)
          with
          | .abort =>
              some
                { s with sessions := s.sessions.eraseIdx i }
          | .proceed writes locks =>
              if
                locks.any
                  (lockedBy (s.sessions.eraseIdx i)) = true
              then none
              else
                some
                  { s with
                    sessions :=
                      s.sessions.set i
                        (e.advance writes locks) }
        else none
| .commit i, s =>
    match s.sessions[i]? with
    | none => none
    | some e =>
        if e.pc = E.length e.call then
          some (E.committed s e (s.sessions.eraseIdx i))
        else none
| .rollback i, s =>
    match s.sessions[i]? with
    | none => none
    | some _ =>
        some { s with sessions := s.sessions.eraseIdx i }
| .tick n, s => some { s with clock := s.clock + n }

/- The database started on one of the given contents. -/
def machine
    (E : Engine D W K C X)
    (init : D → Prop) :
    Machine (State D W K C) (Label C X) where
  init := fun s =>
    ∃ db clock, init db ∧
      s =
        { db := db
          clock := clock
          sessions := []
          calls := []
          history := [] }
  step := E.step

end

------------------------------------------------------------
-- Run Rule
------------------------------------------------------------

section

variable {D W K C X : Type}
variable [DecidableEq K]
variable {E : Engine D W K C X}
variable {init : D → Prop}
variable
  {ok : State D W K C → Label C X → Prop}

/-
  What each step does. The session that moves is given by a
  splitting of the list of sessions.
-/
inductive Effect (E : Engine D W K C X) :
    Label C X → State D W K C → State D W K C → Prop
| begin {s call}
    (hAdmits : E.admits s.clock s.calls call = true) :
    Effect E (.begin call) s
      { s with
        sessions :=
          Session.opened call s.clock :: s.sessions
        calls := call :: s.calls }
| statement {s l₁ e l₂ x writes locks}
    (hSplit : s.sessions = l₁ ++ e :: l₂)
    (hPc : e.pc < E.length e.call)
    (hOutcome :
      E.statement e.call e.pc e.start x
          (lockedBy (l₁ ++ l₂))
          (E.performAll s.db e.writes) =
        .proceed writes locks)
    (hFree : ∀ k ∈ locks, ∀ f ∈ l₁ ++ l₂, k ∉ f.locks) :
    Effect E (.statement l₁.length x) s
      { s with
        sessions := l₁ ++ e.advance writes locks :: l₂ }
| abort {s l₁ e l₂ x}
    (hSplit : s.sessions = l₁ ++ e :: l₂) :
    Effect E (.statement l₁.length x) s
      { s with sessions := l₁ ++ l₂ }
| rollback {s l₁ e l₂}
    (hSplit : s.sessions = l₁ ++ e :: l₂) :
    Effect E (.rollback l₁.length) s
      { s with sessions := l₁ ++ l₂ }
| commit {s l₁ e l₂}
    (hSplit : s.sessions = l₁ ++ e :: l₂)
    (hPc : e.pc = E.length e.call) :
    Effect E (.commit l₁.length) s
      (E.committed s e (l₁ ++ l₂))
| tick {s n} :
    Effect E (.tick n) s { s with clock := s.clock + n }

variable {label : Label C X}
variable {s s' : State D W K C}
variable {i : Nat}

theorem effect_of_step
    (hStep : E.step label s = some s') :
    Effect E label s s' := by
  cases label with
  | begin call =>
      simp only [step] at hStep
      split at hStep
      · rename_i hAdmits
        cases hStep
        exact .begin hAdmits
      · cases hStep
  | statement i x =>
      simp only [step] at hStep
      split at hStep
      · cases hStep
      · rename_i e hGet
        rcases exists_split_of_getElem? hGet with
          ⟨l₁, l₂, hSplit, rfl, hErase, hSet⟩
        rw [hErase] at hStep
        split at hStep
        · rename_i hPc
          split at hStep
          · cases hStep
            exact .abort hSplit
          · rename_i writes locks hOutcome
            split at hStep
            · cases hStep
            · rename_i hFree
              cases hStep
              rw [hSet]
              refine .statement hSplit hPc hOutcome ?_
              intro k hk
              apply lockedBy_eq_false_iff.mp
              rw [Bool.not_eq_true,
                List.any_eq_false] at hFree
              simpa using hFree k hk
        · cases hStep
  | commit i =>
      simp only [step] at hStep
      split at hStep
      · cases hStep
      · rename_i e hGet
        rcases exists_split_of_getElem? hGet with
          ⟨l₁, l₂, hSplit, rfl, hErase, -⟩
        rw [hErase] at hStep
        split at hStep
        · rename_i hPc
          cases hStep
          exact .commit hSplit hPc
        · cases hStep
  | rollback i =>
      simp only [step] at hStep
      split at hStep
      · cases hStep
      · rename_i e hGet
        rcases exists_split_of_getElem? hGet with
          ⟨l₁, l₂, hSplit, rfl, hErase, -⟩
        rw [hErase] at hStep
        cases hStep
        exact .rollback hSplit
  | tick n =>
      cases hStep
      exact .tick

/-
  To show that a property holds in every state reached it is
  enough to show it initially and across each kind of step.
  The session that moves is given by a splitting of the list
  of sessions; a rollback and an aborted call look alike.
-/
theorem reachableWith_invariant
    {I : State D W K C → Prop}
    (hInit :
      ∀ db clock, init db →
        I
          { db := db
            clock := clock
            sessions := []
            calls := []
            history := [] })
    (hBegin :
      ∀ s call, (E.machine init).ReachableWith ok s →
        I s → ok s (.begin call) →
          E.admits s.clock s.calls call = true →
            I
              { s with
                sessions :=
                  Session.opened call s.clock :: s.sessions
                calls := call :: s.calls })
    (hStatement :
      ∀ s l₁ e l₂ x writes locks,
        (E.machine init).ReachableWith ok s →
          I s → ok s (.statement l₁.length x) →
            s.sessions = l₁ ++ e :: l₂ →
              e.pc < E.length e.call →
                E.statement e.call e.pc e.start x
                    (lockedBy (l₁ ++ l₂))
                    (E.performAll s.db e.writes) =
                  .proceed writes locks →
                (∀ k ∈ locks, ∀ f ∈ l₁ ++ l₂,
                  k ∉ f.locks) →
                  I
                    { s with
                      sessions :=
                        l₁ ++ e.advance writes locks ::
                          l₂ })
    (hClose :
      ∀ s l₁ e l₂,
        (E.machine init).ReachableWith ok s →
          I s → s.sessions = l₁ ++ e :: l₂ →
            I { s with sessions := l₁ ++ l₂ })
    (hCommit :
      ∀ s l₁ e l₂,
        (E.machine init).ReachableWith ok s →
          I s → ok s (.commit l₁.length) →
            s.sessions = l₁ ++ e :: l₂ →
              e.pc = E.length e.call →
                I (E.committed s e (l₁ ++ l₂)))
    (hTick :
      ∀ s n, (E.machine init).ReachableWith ok s →
        I s → I { s with clock := s.clock + (n : Nat) })
    (hReach : (E.machine init).ReachableWith ok s) :
    I s := by
  refine Machine.ReachableWith.invariant ?_ ?_ hReach
  · rintro s ⟨db, clock, hDb, rfl⟩
    exact hInit db clock hDb
  · intro s label s' hPrev hInv hOk hStep
    cases effect_of_step hStep with
    | begin hAdmits =>
        exact hBegin s _ hPrev hInv hOk hAdmits
    | statement hSplit hPc hOutcome hFree =>
        exact hStatement s _ _ _ _ _ _ hPrev hInv hOk hSplit
          hPc hOutcome hFree
    | abort hSplit => exact hClose s _ _ _ hPrev hInv hSplit
    | rollback hSplit =>
        exact hClose s _ _ _ hPrev hInv hSplit
    | commit hSplit hPc =>
        exact hCommit s _ _ _ hPrev hInv hOk hSplit hPc
    | tick => exact hTick s _ hPrev hInv

/- A single step changes the committed state by a commit. -/
theorem step_db
    (hStep : E.step label s = some s') :
    s'.db = s.db ∨
      ∃ e ∈ s.sessions,
        s'.db = E.performAll s.db e.writes := by
  cases effect_of_step hStep with
  | commit hSplit =>
      exact .inr ⟨_, self_mem_of_split hSplit, rfl⟩
  | begin | statement | abort | rollback | tick =>
      exact .inl rfl

/- A single step adds the call it begins. -/
theorem step_calls
    (hStep : E.step label s = some s') :
    s'.calls = s.calls ∨
      ∃ call, label = .begin call ∧
        s'.calls = call :: s.calls := by
  cases effect_of_step hStep with
  | begin => exact .inr ⟨_, rfl, rfl⟩
  | statement | abort | rollback | commit | tick =>
      exact .inl rfl

/- A statement opens no session. -/
theorem length_sessions_statement
    {x : X}
    (hStep : E.step (.statement i x) s = some s') :
    s'.sessions.length ≤ s.sessions.length := by
  cases effect_of_step hStep with
  | statement hSplit =>
      rw [hSplit]
      simp
  | abort hSplit =>
      rw [hSplit]
      simp

/- A commit ends a session. -/
theorem length_sessions_commit
    (hStep : E.step (.commit i) s = some s') :
    s'.sessions.length < s.sessions.length := by
  cases effect_of_step hStep with
  | commit hSplit =>
      rw [hSplit]
      simp [committed]

/- A commit carries out the writes of its session. -/
theorem writes_of_commit
    {e : Session W K C}
    (hGet : s.sessions[i]? = some e)
    (hStep : E.step (.commit i) s = some s') :
    e.pc = E.length e.call ∧
      s'.db = E.performAll s.db e.writes ∧
        s'.clock = s.clock := by
  cases effect_of_step hStep with
  | commit hSplit hPc =>
      cases hGet.symm.trans (getElem?_of_split hSplit)
      exact ⟨hPc, rfl, rfl⟩

section Newest

variable {s s' : State D W K C}
variable {e : Session W K C}
variable {others : List (Session W K C)}
variable {x : X}

/- The newest session runs a statement without waiting. -/
theorem step_newest
    (hSessions : s.sessions = e :: others)
    (hPc : e.pc < E.length e.call)
    {writes : List W}
    {locks : List K}
    (hOutcome :
      E.statement e.call e.pc e.start x (lockedBy others)
          (E.performAll s.db e.writes) =
        .proceed writes locks)
    (hFree : ∀ k ∈ locks, lockedBy others k = false) :
    E.step (.statement 0 x) s =
      some
        { s with
          sessions := e.advance writes locks :: others } := by
  have hAny : ¬locks.any (lockedBy others) = true := by
    simp only [List.any_eq_true, not_exists, not_and,
      Bool.not_eq_true]
    exact hFree
  simp only [step, hSessions, List.getElem?_cons_zero,
    List.eraseIdx_cons_zero, List.set_cons_zero, hPc,
    hOutcome, hAny, if_true, Bool.false_eq_true, if_false]

/- What a statement of the newest session does. -/
theorem step_newest_cases
    (hSessions : s.sessions = e :: others)
    (hPc : e.pc < E.length e.call)
    (hStep : E.step (.statement 0 x) s = some s') :
    s' = { s with sessions := others } ∨
      ∃ writes locks,
        E.statement e.call e.pc e.start x (lockedBy others)
            (E.performAll s.db e.writes) =
          .proceed writes locks ∧
        (∀ k ∈ locks, lockedBy others k = false) ∧
        s' =
          { s with
            sessions :=
              e.advance writes locks :: others } := by
  simp only [step, hSessions, List.getElem?_cons_zero,
    List.eraseIdx_cons_zero, List.set_cons_zero, hPc,
    if_true] at hStep
  split at hStep
  · cases hStep
    exact .inl rfl
  · rename_i writes locks hOutcome
    split at hStep
    · cases hStep
    · rename_i hFree
      cases hStep
      refine .inr ⟨writes, locks, hOutcome, ?_, rfl⟩
      simpa [List.any_eq_false] using hFree

theorem step_commit_newest
    (hSessions : s.sessions = e :: others)
    (hPc : e.pc = E.length e.call) :
    E.step (.commit 0) s =
      some (E.committed s e others) := by
  simp only [step, hSessions, List.getElem?_cons_zero,
    List.eraseIdx_cons_zero, hPc, if_true]

end Newest

end

------------------------------------------------------------
-- Undisturbed Calls
------------------------------------------------------------

section

variable {D W K C X : Type}
variable [DecidableEq K]
variable {E : Engine D W K C X}
variable {init : D → Prop}
variable {allowed : Label C X → Prop}

/- All sessions can be rolled back. -/
theorem leads_rollback
    (hAllowed : ∀ i, allowed (.rollback i))
    (s : State D W K C) :
    (E.machine init).Leads allowed s
      { s with sessions := [] } := by
  rcases s with ⟨db, clock, sessions, calls, history⟩
  induction sessions with
  | nil => exact .refl _
  | cons e sessions ih =>
      exact .trans (.of_step (hAllowed 0) rfl) ih

/- Time can pass. -/
theorem leads_tick
    (hAllowed : ∀ n, allowed (.tick n))
    {s : State D W K C}
    {later : Int}
    (hLater : s.clock ≤ later) :
    (E.machine init).Leads allowed s
      { s with clock := later } := by
  refine .of_step (hAllowed (later - s.clock).toNat) ?_
  have hSum :
      s.clock + ((later - s.clock).toNat : Int) = later := by
    omega
  change
    some
        { s with
          clock := s.clock + ((later - s.clock).toNat : Int) } =
      some { s with clock := later }
  rw [hSum]

/-
  A call of one statement that has to wait for nobody runs
  to its commit.
-/
theorem leads_single
    {s : State D W K C}
    {call : C}
    {x : X}
    {writes : List W}
    {locks : List K}
    (hBegin : allowed (.begin call))
    (hStatement : allowed (.statement 0 x))
    (hCommit : allowed (.commit 0))
    (hLength : E.length call = 1)
    (hAdmits : E.admits s.clock s.calls call = true)
    (hOutcome :
      E.statement call 0 s.clock x (lockedBy s.sessions)
          s.db =
        .proceed writes locks)
    (hFree : ∀ k ∈ locks, lockedBy s.sessions k = false) :
    ∃ s', (E.machine init).Leads allowed s s' ∧
      s'.db = E.performAll s.db writes ∧
        s'.sessions = s.sessions ∧ s'.clock = s.clock ∧
          s'.calls = call :: s.calls := by
  let e : Session W K C := Session.opened call s.clock
  let opened : State D W K C :=
    { s with
      sessions := e :: s.sessions
      calls := call :: s.calls }
  let asked : State D W K C :=
    { opened with
      sessions := e.advance writes locks :: s.sessions }
  have hPc : e.pc < E.length call := by
    rw [hLength]
    exact Nat.one_pos
  have hFirst :
      (E.machine init).Leads allowed s opened :=
    .of_step hBegin (if_pos hAdmits)
  have hSecond :
      (E.machine init).Leads allowed opened asked :=
    .of_step hStatement
      (step_newest (s := opened) rfl hPc hOutcome hFree)
  have hThird :
      (E.machine init).Leads allowed asked
        (E.committed asked (e.advance writes locks)
          s.sessions) :=
    .of_step hCommit
      (step_commit_newest (s := asked) rfl hLength.symm)
  exact ⟨_, (hFirst.trans hSecond).trans hThird, rfl, rfl,
    rfl, rfl⟩

/- Calls that were made stay recorded. -/
theorem calls_subset_of_leads
    {s s' : State D W K C}
    (hLeads : (E.machine init).Leads allowed s s') :
    s.calls ⊆ s'.calls := by
  refine hLeads.invariant (I := fun t => s.calls ⊆ t.calls) ?_
    (List.Subset.refl _)
  intro t label t' hKept _ hStep
  rcases step_calls hStep with hSame | ⟨call, _, hMore⟩
  · rw [hSame]
    exact hKept
  · rw [hMore]
    exact List.Subset.trans hKept (List.subset_cons_self _ _)

end

------------------------------------------------------------
-- Bookkeeping
------------------------------------------------------------

variable {D W K C X : Type}
variable [DecidableEq K]
variable {E : Engine D W K C X}
variable {init : D → Prop}
variable
  {ok : State D W K C → Label C X → Prop}

/- Sessions run calls that were made before the present. -/
structure Booked
    (E : Engine D W K C X)
    (s : State D W K C) : Prop where
  sessions : ∀ e ∈ s.sessions,
    e.call ∈ s.calls ∧ e.start ≤ s.clock ∧
      e.pc ≤ E.length e.call
  history : ∀ c ∈ s.history,
    c.call ∈ s.calls ∧ c.start ≤ s.clock

variable {s : State D W K C}
variable {N : Type}

theorem booked
    (hReach : (E.machine init).ReachableWith ok s) :
    E.Booked s := by
  refine reachableWith_invariant ?_ ?_ ?_ ?_ ?_ ?_ hReach
  · intro db clock _
    constructor
    · intro e he
      cases he
    · intro c hc
      cases hc
  · intro s call _ hInv _ _
    constructor
    · intro e he
      rcases List.mem_cons.mp he with hNew | hOld
      · subst hNew
        exact ⟨List.mem_cons_self, Int.le_refl _, Nat.zero_le _⟩
      · have hBooked := hInv.sessions e hOld
        exact ⟨List.mem_cons_of_mem _ hBooked.1, hBooked.2⟩
    · intro c hc
      have hBooked := hInv.history c hc
      exact ⟨List.mem_cons_of_mem _ hBooked.1, hBooked.2⟩
  · intro s l₁ e l₂ x writes locks _ hInv _ hSplit hPc _ _
    constructor
    · intro f hf
      rcases mem_split_iff.mp hf with hMoved | hOther
      · subst hMoved
        have hBooked := hInv.sessions e
          (self_mem_of_split hSplit)
        exact ⟨hBooked.1, hBooked.2.1, hPc⟩
      · exact hInv.sessions f (mem_of_split hSplit hOther)
    · exact hInv.history
  · intro s l₁ e l₂ _ hInv hSplit
    constructor
    · intro f hf
      exact hInv.sessions f (mem_of_split hSplit hf)
    · exact hInv.history
  · intro s l₁ e l₂ _ hInv _ hSplit _
    have hBooked := hInv.sessions e (self_mem_of_split hSplit)
    constructor
    · intro f hf
      exact hInv.sessions f (mem_of_split hSplit hf)
    · intro c hc
      rcases List.mem_cons.mp hc with hNew | hOld
      · subst hNew
        exact ⟨hBooked.1, hBooked.2.1⟩
      · exact hInv.history c hOld
  · intro s n _ hInv
    constructor
    · intro e he
      have hBooked := hInv.sessions e he
      have hLe : e.start ≤ s.clock + (n : Nat) := by omega
      exact ⟨hBooked.1, hLe, hBooked.2.2⟩
    · intro c hc
      have hBooked := hInv.history c hc
      have hLe : c.start ≤ s.clock + (n : Nat) := by omega
      exact ⟨hBooked.1, hLe⟩

/-
  Only commits change the committed state and the history. A
  fact about them and the clock lasts if it still holds later.
-/
theorem timed_invariant
    {I : D → List (Commit D C) → Int → Prop}
    (hInit : ∀ db clock, init db → I db [] clock)
    (hCommit :
      ∀ s l₁ e l₂, (E.machine init).ReachableWith ok s →
        I s.db s.history s.clock →
          ok s (.commit l₁.length) →
            s.sessions = l₁ ++ e :: l₂ →
              e.pc = E.length e.call →
                I (E.committed s e (l₁ ++ l₂)).db
                  (E.committed s e (l₁ ++ l₂)).history
                  s.clock)
    (hLater :
      ∀ db history clock clock', clock ≤ clock' →
        I db history clock → I db history clock')
    {s : State D W K C}
    (hReach : (E.machine init).ReachableWith ok s) :
    I s.db s.history s.clock := by
  refine reachableWith_invariant
    (I := fun s : State D W K C =>
      I s.db s.history s.clock)
    ?_ ?_ ?_ ?_ hCommit ?_ hReach
  · intro db clock hDb
    exact hInit db clock hDb
  · intro s call _ hInv _ _
    exact hInv
  · intro s l₁ e l₂ x writes locks _ hInv _ _ _ _ _
    exact hInv
  · intro s l₁ e l₂ _ hInv _
    exact hInv
  · intro s n _ hInv
    exact hLater s.db s.history s.clock _
      (Int.le_add_of_nonneg_right (Int.natCast_nonneg n))
      hInv

theorem commits_invariant
    {I : D → List (Commit D C) → Prop}
    (hInit : ∀ db, init db → I db [])
    (hCommit :
      ∀ s l₁ e l₂, (E.machine init).ReachableWith ok s →
        I s.db s.history → ok s (.commit l₁.length) →
          s.sessions = l₁ ++ e :: l₂ →
            e.pc = E.length e.call →
              I (E.committed s e (l₁ ++ l₂)).db
                (E.committed s e (l₁ ++ l₂)).history)
    (hReach : (E.machine init).ReachableWith ok s) :
    I s.db s.history :=
  timed_invariant (I := fun db history _ => I db history)
    (fun db _ => hInit db) hCommit (fun _ _ _ _ _ hInv => hInv)
    hReach

/- What holds of each commit holds throughout the history. -/
theorem history_invariant
    {P : Commit D C → Prop}
    (hEntry :
      ∀ s e, (E.machine init).ReachableWith ok s →
        e ∈ s.sessions → e.pc = E.length e.call →
          P (E.entry s.db e))
    (hReach : (E.machine init).ReachableWith ok s) :
    ∀ c ∈ s.history, P c := by
  refine commits_invariant
    (I := fun _ history => ∀ c ∈ history, P c) ?_ ?_ hReach
  · intro db _ c hc
    cases hc
  · intro s l₁ e l₂ hPrev hInv _ hSplit hPc c hc
    rcases List.mem_cons.mp hc with hNew | hOld
    · rw [hNew]
      exact hEntry s e hPrev (self_mem_of_split hSplit) hPc
    · exact hInv c hOld

/- Only new calls and the clock change what has been called. -/
theorem calls_invariant
    {I : Int → List C → Prop}
    (hInit : ∀ clock, I clock [])
    (hBegin :
      ∀ s call, (E.machine init).ReachableWith ok s →
        I s.clock s.calls →
          E.admits s.clock s.calls call = true →
            I s.clock (call :: s.calls))
    (hTick :
      ∀ clock calls (n : Nat), I clock calls →
        I (clock + n) calls)
    (hReach : (E.machine init).ReachableWith ok s) :
    I s.clock s.calls := by
  refine reachableWith_invariant
    (I := fun s : State D W K C => I s.clock s.calls)
    ?_ ?_ ?_ ?_ ?_ ?_ hReach
  · intro db clock _
    exact hInit clock
  · intro s call hPrev hInv _ hAdmits
    exact hBegin s call hPrev hInv hAdmits
  · intro s l₁ e l₂ x writes locks _ hInv _ _ _ _ _
    exact hInv
  · intro s l₁ e l₂ _ hInv _
    exact hInv
  · intro s l₁ e l₂ _ hInv _ _ _
    exact hInv
  · intro s n _ hInv
    exact hTick s.clock s.calls n hInv

------------------------------------------------------------
-- Row Locks Exclude Each Other
------------------------------------------------------------

omit [DecidableEq K] in
theorem locks_disjoint_symm
    {e f : Session W K C}
    (hDisjoint : e.locks.Disjoint f.locks) :
    f.locks.Disjoint e.locks :=
  fun _ hf he => hDisjoint he hf

/- No two sessions hold a lock on one row. -/
theorem locks_disjoint
    (hReach : (E.machine init).ReachableWith ok s) :
    s.sessions.Pairwise
      (fun e f => e.locks.Disjoint f.locks) := by
  refine reachableWith_invariant
    (I := fun s : State D W K C =>
      s.sessions.Pairwise
        (fun e f => e.locks.Disjoint f.locks))
    ?_ ?_ ?_ ?_ ?_ ?_ hReach
  · intro db clock _
    exact List.Pairwise.nil
  · intro s call _ hInv _ _
    refine List.Pairwise.cons ?_ hInv
    intro f _
    exact List.disjoint_nil_left _
  · intro s l₁ e l₂ x writes locks _ hInv _ hSplit _ _ hFree
    rw [hSplit, List.pairwise_middle locks_disjoint_symm,
      List.pairwise_cons] at hInv
    rw [List.pairwise_middle locks_disjoint_symm,
      List.pairwise_cons]
    refine ⟨?_, hInv.2⟩
    intro f hf k hk hkf
    rcases List.mem_append.mp hk with hOld | hNew
    · exact hInv.1 f hf hOld hkf
    · exact hFree k hNew f hf hkf
  · intro s l₁ e l₂ _ hInv hSplit
    rw [hSplit,
      List.pairwise_middle locks_disjoint_symm] at hInv
    exact hInv.of_cons
  · intro s l₁ e l₂ _ hInv _ hSplit _
    rw [hSplit,
      List.pairwise_middle locks_disjoint_symm] at hInv
    exact hInv.of_cons
  · intro s n _ hInv
    exact hInv

/- The same for the session that moves and another one. -/
theorem not_mem_locks_of_split
    (hReach : (E.machine init).ReachableWith ok s)
    {l₁ l₂ : List (Session W K C)}
    {e f : Session W K C}
    (hSplit : s.sessions = l₁ ++ e :: l₂)
    (hOther : f ∈ l₁ ++ l₂)
    {k : K}
    (hLock : k ∈ e.locks) :
    k ∉ f.locks := by
  have hPairs := locks_disjoint hReach
  rw [hSplit, List.pairwise_middle locks_disjoint_symm,
    List.pairwise_cons] at hPairs
  exact fun hOtherLock =>
    hPairs.1 f hOther hLock hOtherLock

/-
  A fact about a session and the committed state holds
  throughout if the session's own statements establish it
  and the commit of a session with other locks keeps it. The
  statement may count on the state being reachable.
-/
theorem reachable_sessions_invariant
    {P : D → Session W K C → Prop}
    (hOpened :
      ∀ db call clock, P db (Session.opened call clock))
    (hStatement :
      ∀ s e x locked writes locks,
        (E.machine init).ReachableWith ok s →
          e ∈ s.sessions → P s.db e →
            E.statement e.call e.pc e.start x locked
                (E.performAll s.db e.writes) =
              .proceed writes locks →
            P s.db (e.advance writes locks))
    (hFrame :
      ∀ s e f, (E.machine init).ReachableWith ok s →
        f ∈ s.sessions → P s.db e → P s.db f →
          (∀ k ∈ f.locks, k ∉ e.locks) →
            P (E.performAll s.db f.writes) e)
    (hReach : (E.machine init).ReachableWith ok s) :
    ∀ e ∈ s.sessions, P s.db e := by
  refine reachableWith_invariant
    (I := fun s : State D W K C =>
      ∀ e ∈ s.sessions, P s.db e)
    ?_ ?_ ?_ ?_ ?_ ?_ hReach
  · intro db clock _ e he
    cases he
  · intro s call _ hInv _ _ e he
    rcases List.mem_cons.mp he with hNew | hOld
    · subst hNew
      exact hOpened s.db call s.clock
    · exact hInv e hOld
  · intro s l₁ e l₂ x writes locks hPrev hInv _ hSplit _
      hOutcome _ f hf
    have he : e ∈ s.sessions := self_mem_of_split hSplit
    rcases mem_split_iff.mp hf with hMoved | hOther
    · subst hMoved
      exact hStatement s e x _ writes locks hPrev he
        (hInv e he) hOutcome
    · exact hInv f (mem_of_split hSplit hOther)
  · intro s l₁ e l₂ _ hInv hSplit f hf
    exact hInv f (mem_of_split hSplit hf)
  · intro s l₁ e l₂ hPrev hInv _ hSplit _ f hf
    have he : e ∈ s.sessions := self_mem_of_split hSplit
    apply hFrame s f e hPrev he
      (hInv f (mem_of_split hSplit hf)) (hInv e he)
    intro k hk
    exact not_mem_locks_of_split hPrev hSplit hf hk
  · intro s n _ hInv
    exact hInv

/- The same for facts that need no reachable state. -/
theorem sessions_invariant
    {P : D → Session W K C → Prop}
    (hOpened :
      ∀ db call clock, P db (Session.opened call clock))
    (hStatement :
      ∀ db (e : Session W K C) x locked writes locks,
        P db e →
          E.statement e.call e.pc e.start x locked
              (E.performAll db e.writes) =
            .proceed writes locks →
          P db (e.advance writes locks))
    (hFrame :
      ∀ db (e f : Session W K C), P db e → P db f →
        (∀ k ∈ f.locks, k ∉ e.locks) →
          P (E.performAll db f.writes) e)
    (hReach : (E.machine init).ReachableWith ok s) :
    ∀ e ∈ s.sessions, P s.db e := by
  refine reachable_sessions_invariant hOpened ?_ ?_ hReach
  · intro s e x locked writes locks _ _ hP hOutcome
    exact hStatement s.db e x locked writes locks hP hOutcome
  · intro s e f _ _ hP hOther hLocks
    exact hFrame s.db e f hP hOther hLocks

------------------------------------------------------------
-- Fresh Values
------------------------------------------------------------

/-
  When calls bring values that no earlier call brought, the
  values of the sessions in progress and of the commits are
  all different.
-/
theorem nonces_nodup
    (nonce : C → Option N)
    (hFresh :
      ∀ clock calls call n,
        E.admits clock calls call = true →
          nonce call = some n →
            ∀ other ∈ calls, nonce other ≠ some n)
    (hReach : (E.machine init).ReachableWith ok s) :
    (s.sessions.filterMap (fun e => nonce e.call) ++
      s.history.filterMap (fun c => nonce c.call)).Nodup := by
  refine reachableWith_invariant
    (I := fun s : State D W K C =>
      (s.sessions.filterMap (fun e => nonce e.call) ++
        s.history.filterMap (fun c => nonce c.call)).Nodup)
    ?_ ?_ ?_ ?_ ?_ ?_ hReach
  · intro db clock _
    exact List.nodup_nil
  · intro s call hPrev hInv _ hAdmits
    have hBooked := booked hPrev
    cases hNonce : nonce call with
    | none =>
        simpa [Session.opened, hNonce] using hInv
    | some n =>
        have hNew := hFresh _ _ _ _ hAdmits hNonce
        simp only [List.filterMap_cons, Session.opened,
          hNonce, List.cons_append]
        refine List.nodup_cons.mpr ⟨?_, hInv⟩
        intro hMem
        rcases List.mem_append.mp hMem with hOpen | hPast
        · rcases List.mem_filterMap.mp hOpen with
            ⟨e, he, hSame⟩
          exact hNew _ (hBooked.sessions e he).1 hSame
        · rcases List.mem_filterMap.mp hPast with
            ⟨c, hc, hSame⟩
          exact hNew _ (hBooked.history c hc).1 hSame
  · intro s l₁ e l₂ x writes locks _ hInv _ hSplit _ _ _
    rw [hSplit] at hInv
    simpa [List.filterMap_append, List.filterMap_cons]
      using hInv
  · intro s l₁ e l₂ _ hInv hSplit
    rw [hSplit] at hInv
    refine hInv.sublist (List.Sublist.append_right ?_ _)
    apply List.Sublist.filterMap _
    exact List.Sublist.append_left
      (List.sublist_cons_self e l₂) l₁
  · intro s l₁ e l₂ _ hInv _ hSplit _
    rw [hSplit] at hInv
    cases hNonce : nonce e.call with
    | none =>
        simpa [committed, entry, hNonce, List.filterMap_append]
          using hInv
    | some n =>
        -- The value moves from the sessions to the commits.
        refine (List.Perm.nodup_iff ?_).mp hInv
        simp only [committed, entry, List.filterMap_append,
          List.filterMap_cons, hNonce]
        rw [List.append_assoc, List.append_assoc,
          List.cons_append]
        apply List.Perm.append_left _
        exact List.perm_middle.symm
  · intro s n _ hInv
    exact hInv

/- A value determines the call that brought it. -/
theorem call_of_nonce
    (nonce : C → Option N)
    (hFresh :
      ∀ clock calls call n,
        E.admits clock calls call = true →
          nonce call = some n →
            ∀ other ∈ calls, nonce other ≠ some n)
    (hReach : (E.machine init).ReachableWith ok s) :
    ∀ call ∈ s.calls, ∀ call' ∈ s.calls, ∀ n,
      nonce call = some n → nonce call' = some n →
        call = call' := by
  refine calls_invariant
    (I := fun _ calls =>
      ∀ call ∈ calls, ∀ call' ∈ calls, ∀ n,
        nonce call = some n → nonce call' = some n →
          call = call')
    ?_ ?_ ?_ hReach
  · intro clock call hCall
    cases hCall
  · intro s new _ hInv hAdmits call hCall call' hCall' n
      hOne hTwo
    rcases List.mem_cons.mp hCall with hNew | hOld
    · rcases List.mem_cons.mp hCall' with hNew' | hOld'
      · rw [hNew, hNew']
      · rw [hNew] at hOne
        exact absurd hTwo
          (hFresh _ _ _ _ hAdmits hOne call' hOld')
    · rcases List.mem_cons.mp hCall' with hNew' | hOld'
      · rw [hNew'] at hTwo
        exact absurd hOne
          (hFresh _ _ _ _ hAdmits hTwo call hOld)
      · exact hInv call hOld call' hOld' n hOne hTwo
  · intro clock calls n hInv
    exact hInv

/- So at most one commit brought a given value. -/
theorem nonce_once
    [DecidableEq N]
    (nonce : C → Option N)
    (hFresh :
      ∀ clock calls call n,
        E.admits clock calls call = true →
          nonce call = some n →
            ∀ other ∈ calls, nonce other ≠ some n)
    (hReach : (E.machine init).ReachableWith ok s)
    (n : N) :
    s.history.countP
        (fun c => decide (nonce c.call = some n)) ≤
      1 := by
  have hNodup :=
    (List.nodup_append.mp
      (nonces_nodup nonce hFresh hReach)).2.1
  have hCount := List.nodup_iff_count_le_one.mp hNodup n
  rw [List.count_filterMap] at hCount
  refine Nat.le_trans (Nat.le_of_eq ?_) hCount
  apply List.countP_congr
  intro c _
  simp

end Engine

end ReadCommitted

end Foundations
