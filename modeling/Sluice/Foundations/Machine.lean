import Mathlib.Data.List.Basic

/-
  Labelled machines given by an executable step function,
  and the states their runs reach.

  Key definitions include:
    * `Machine`
    * `Machine.ReachableWith`
    * `Machine.Reachable`
    * `Machine.runWith` and `Machine.run`
    * `Machine.Leads`
    * `Machine.observed`

  Key theorems include:
    * `Machine.ReachableWith.invariant`
    * `Machine.ReachableWith.mono`
    * `Machine.ReachableWith.of_runWith`
    * `Machine.Reachable.of_run`
    * `Machine.exists_reachableWith_of_run`
    * `Machine.exists_reachable_of_run`
    * `Machine.Leads.trans` and `Machine.Leads.invariant`
    * `Machine.view_mem_of_observed`
-/

------------------------------------------------------------
-- Machines And Runs
------------------------------------------------------------

namespace Foundations

/-
  A machine has initial states and, for every label, a
  partial step: `none` means that the label is not enabled.
-/
structure Machine (S L : Type) where
  init : S → Prop
  step : L → S → Option S

namespace Machine

variable {S L : Type}
variable {M : Machine S L}

/-
  The states reached by runs all of whose steps meet the
  condition `ok` on the state before the step and its label.
-/
inductive ReachableWith
    (M : Machine S L)
    (ok : S → L → Prop) :
    S → Prop
| start {s : S} :
    M.init s → ReachableWith M ok s
| next {s s' : S} (label : L) :
    ReachableWith M ok s →
      ok s label →
        M.step label s = some s' →
          ReachableWith M ok s'

/- The states reached by arbitrary runs. -/
def Reachable
    (M : Machine S L) :
    S → Prop :=
  M.ReachableWith (fun _ _ => True)

/-
  Run a list of labels from one state, as long as each step
  is enabled and meets a condition.
-/
def runWith
    (M : Machine S L)
    (ok : S → L → Bool) :
    List L → S → Option S
| [], s => some s
| label :: labels, s =>
    if ok s label then
      (M.step label s).bind (M.runWith ok labels)
    else none

/- Run a list of labels from one state. -/
def run
    (M : Machine S L) :
    List L → S → Option S :=
  M.runWith (fun _ _ => true)

theorem run_cons
    (M : Machine S L)
    (label : L)
    (labels : List L)
    (s : S) :
    M.run (label :: labels) s =
      (M.step label s).bind (M.run labels) :=
  rfl

------------------------------------------------------------
-- Run Rules
------------------------------------------------------------

variable {s : S}
variable {labels : List L}

/-
  What holds initially and is kept by every admitted step
  holds in every state reached.
-/
theorem ReachableWith.invariant
    {ok : S → L → Prop}
    {I : S → Prop}
    (hInit : ∀ s, M.init s → I s)
    (hStep :
      ∀ s label s', M.ReachableWith ok s → I s →
        ok s label → M.step label s = some s' → I s')
    (hReach : M.ReachableWith ok s) :
    I s := by
  induction hReach with
  | start hStart => exact hInit _ hStart
  | next label hPrev hOk hNext ih =>
      exact hStep _ label _ hPrev ih hOk hNext

/- A weaker condition on the steps reaches more states. -/
theorem ReachableWith.mono
    {ok ok' : S → L → Prop}
    (hImp : ∀ s label, ok s label → ok' s label)
    (hReach : M.ReachableWith ok s) :
    M.ReachableWith ok' s := by
  induction hReach with
  | start hStart => exact .start hStart
  | next label _ hOk hNext ih =>
      exact .next label ih (hImp _ _ hOk) hNext

/- Restricted runs are runs. -/
theorem ReachableWith.reachable
    {ok : S → L → Prop}
    (hReach : M.ReachableWith ok s) :
    M.Reachable s :=
  hReach.mono (fun _ _ _ => trivial)

/- Executing a list of labels stays within reach. -/
theorem ReachableWith.of_runWith
    {ok : S → L → Bool}
    {s s' : S}
    (hReach : M.ReachableWith (fun s l => ok s l = true) s)
    (hRun : M.runWith ok labels s = some s') :
    M.ReachableWith (fun s l => ok s l = true) s' := by
  induction labels generalizing s with
  | nil =>
      cases hRun
      exact hReach
  | cons label labels ih =>
      simp only [runWith] at hRun
      split at hRun
      · rename_i hOk
        rcases Option.bind_eq_some_iff.mp hRun with
          ⟨mid, hMid, hRest⟩
        exact ih (.next label hReach hOk hMid) hRest
      · cases hRun

theorem Reachable.of_run
    {s s' : S}
    (hReach : M.Reachable s)
    (hRun : M.run labels s = some s') :
    M.Reachable s' := by
  have hAny :
      M.ReachableWith (fun _ _ => true = true) s :=
    hReach.mono (fun _ _ _ => rfl)
  exact (ReachableWith.of_runWith hAny hRun).reachable

/-
  A concrete run whose end is seen to satisfy a property
  yields a reachable state that satisfies it.
-/
theorem exists_reachableWith_of_run
    {s : S}
    (hInit : M.init s)
    (ok : S → L → Bool)
    (labels : List L)
    (P : S → Prop)
    [DecidablePred P]
    (hRun :
      (M.runWith ok labels s).any (fun s => decide (P s)) =
        true) :
    ∃ s', M.ReachableWith (fun s l => ok s l = true) s' ∧
      P s' := by
  rcases (Option.any_eq_true _ _).mp hRun with
    ⟨s', hEnd, hCheck⟩
  exact ⟨s', ReachableWith.of_runWith (.start hInit) hEnd,
    of_decide_eq_true hCheck⟩

theorem exists_reachable_of_run
    {s : S}
    (hInit : M.init s)
    (labels : List L)
    (P : S → Prop)
    [DecidablePred P]
    (hRun :
      (M.run labels s).any (fun s => decide (P s)) = true) :
    ∃ s', M.Reachable s' ∧ P s' := by
  rcases exists_reachableWith_of_run hInit _ labels P hRun
    with ⟨s', hReach, hEnd⟩
  exact ⟨s', hReach.reachable, hEnd⟩

------------------------------------------------------------
-- Allowed Runs
------------------------------------------------------------

/- A run of allowed labels leads from one state to another. -/
def Leads
    (M : Machine S L)
    (allowed : L → Prop)
    (s s' : S) :
    Prop :=
  ∃ labels, (∀ label ∈ labels, allowed label) ∧
    M.run labels s = some s'

theorem run_append
    (M : Machine S L)
    (labels labels' : List L)
    (s : S) :
    M.run (labels ++ labels') s =
      (M.run labels s).bind (M.run labels') := by
  induction labels generalizing s with
  | nil => rfl
  | cons label labels ih =>
      rw [List.cons_append, run_cons, run_cons,
        Option.bind_assoc]
      congr 1
      funext mid
      exact ih mid

namespace Leads

variable {allowed : L → Prop}
variable {s s' s'' : S}

theorem refl (s : S) : M.Leads allowed s s :=
  ⟨[], List.forall_mem_nil _, rfl⟩

theorem of_step
    {label : L}
    (hAllowed : allowed label)
    (hStep : M.step label s = some s') :
    M.Leads allowed s s' := by
  refine ⟨[label], List.forall_mem_singleton.mpr hAllowed, ?_⟩
  rw [run_cons, hStep]
  rfl

theorem trans
    (hFirst : M.Leads allowed s s')
    (hThen : M.Leads allowed s' s'') :
    M.Leads allowed s s'' := by
  rcases hFirst with ⟨labels, hLabels, hRun⟩
  rcases hThen with ⟨labels', hLabels', hRun'⟩
  refine ⟨labels ++ labels',
    List.forall_mem_append.mpr ⟨hLabels, hLabels'⟩, ?_⟩
  rw [run_append, hRun]
  exact hRun'

theorem reachable
    (hLeads : M.Leads allowed s s')
    (hReach : M.Reachable s) :
    M.Reachable s' := by
  rcases hLeads with ⟨labels, _, hRun⟩
  exact hReach.of_run hRun

theorem mono
    {allowed' : L → Prop}
    (hMore : ∀ label, allowed label → allowed' label)
    (hLeads : M.Leads allowed s s') :
    M.Leads allowed' s s' := by
  rcases hLeads with ⟨labels, hLabels, hRun⟩
  exact ⟨labels,
    fun label hLabel => hMore label (hLabels label hLabel),
    hRun⟩

/- What the allowed steps preserve. -/
theorem invariant
    {I : S → Prop}
    (hStep :
      ∀ s label s', I s → allowed label →
        M.step label s = some s' → I s')
    (hLeads : M.Leads allowed s s')
    (hStart : I s) :
    I s' := by
  rcases hLeads with ⟨labels, hLabels, hRun⟩
  induction labels generalizing s with
  | nil =>
      cases hRun
      exact hStart
  | cons label labels ih =>
      rcases List.forall_mem_cons.mp hLabels with
        ⟨hFirst, hRest⟩
      rw [run_cons] at hRun
      rcases Option.bind_eq_some_iff.mp hRun with
        ⟨mid, hMid, hThen⟩
      exact ih (hStep s label mid hStart hFirst hMid) hRest
        hThen

end Leads

------------------------------------------------------------
-- Observed Runs
------------------------------------------------------------

/-
  The machine with a record of what an observer has seen in
  every state of the run, the present one first.
-/
def observed
    {O : Type}
    (M : Machine S L)
    (view : S → O) :
    Machine (S × List O) L where
  init := fun p => M.init p.1 ∧ p.2 = [view p.1]
  step := fun label p =>
    (M.step label p.1).map (fun s => (s, view s :: p.2))

section

variable {O : Type}
variable {view : S → O}

theorem step_of_observed
    {label : L}
    {p p' : S × List O}
    (hStep : (M.observed view).step label p = some p') :
    M.step label p.1 = some p'.1 ∧
      p'.2 = view p'.1 :: p.2 := by
  rcases Option.map_eq_some_iff.mp hStep with
    ⟨s, hNext, rfl⟩
  exact ⟨hNext, rfl⟩

/- The present state has been seen. -/
theorem view_mem_of_observed
    {p : S × List O}
    (hReach : (M.observed view).Reachable p) :
    view p.1 ∈ p.2 := by
  cases hReach with
  | start hInit =>
      rw [hInit.2]
      exact List.mem_cons_self
  | next label _ _ hStep =>
      rw [(step_of_observed hStep).2]
      exact List.mem_cons_self

end

end Machine

end Foundations
