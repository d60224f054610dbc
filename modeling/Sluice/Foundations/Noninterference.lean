/-
  Requests that many parties make of one shared state.

  Two states look the same to a party if they agree on all
  that belongs to it. A request is isolated if its response
  and its effect on its party's own things depend on nothing
  else, and if it leaves the things of all other parties as
  they are. Requests are put together from observations and
  writes by the rules below.

  Key definitions include:
    * `Views`
    * `Reads` and `Writes`
    * `Isolated`

  Key theorems include:
    * `Isolated.read` and `Isolated.write`
    * `Isolated.observe`
    * `Isolated.bind` and `Isolated.after`
    * `Isolated.congr`
-/

------------------------------------------------------------
-- Views
------------------------------------------------------------

namespace Foundations

/- When two states look the same to a party. -/
structure Views (S V : Type) where
  same : V → S → S → Prop
  refl : ∀ v s, same v s s
  trans :
    ∀ v s s' s'', same v s s' → same v s' s'' →
      same v s s''

variable {S V A R : Type}
variable (views : Views S V)

/- An observation that a party may make. -/
def Reads (ok : S → Prop) (v : V) (obs : S → A) : Prop :=
  ∀ s s', ok s → ok s' → views.same v s s' → obs s = obs s'

/- A write of what belongs to a party. -/
structure Writes
    (ok : S → Prop)
    (v : V)
    (act : S → S) :
    Prop where
  view :
    ∀ s s', ok s → ok s' → views.same v s s' →
      views.same v (act s) (act s')
  others :
    ∀ s, ok s → ∀ u, u ≠ v → views.same u s (act s)

/- A request, with a response and the state it leaves. -/
structure Isolated
    (ok : S → Prop)
    (v : V)
    (request : S → R × S) :
    Prop where
  response :
    ∀ s s', ok s → ok s' → views.same v s s' →
      (request s).1 = (request s').1
  view :
    ∀ s s', ok s → ok s' → views.same v s s' →
      views.same v (request s).2 (request s').2
  others :
    ∀ s, ok s → ∀ u, u ≠ v → views.same u s (request s).2

------------------------------------------------------------
-- Rules
------------------------------------------------------------

variable {views}
variable {ok ok' : S → Prop}
variable {v : V}

namespace Isolated

/- A response that is read off the state. -/
theorem read
    {obs : S → R}
    (hReads : Reads views ok v obs) :
    Isolated views ok v (fun s => (obs s, s)) where
  response := hReads
  view := fun _ _ _ _ hSame => hSame
  others := fun s _ u _ => views.refl u s

/- A response that does not depend on the state. -/
theorem answer
    (r : R) :
    Isolated views ok v (fun s => (r, s)) :=
  read (fun _ _ _ _ _ => rfl)

theorem write
    {act : S → S}
    (hWrites : Writes views ok v act)
    (r : R) :
    Isolated views ok v (fun s => (r, act s)) where
  response := fun _ _ _ _ _ => rfl
  view := hWrites.view
  others := hWrites.others

/- Go on with what has been observed. -/
theorem observe
    {request : S → R × S}
    (obs : S → A)
    (hReads : Reads views ok v obs)
    (hCases :
      ∀ a,
        Isolated views (fun s => ok s ∧ obs s = a) v
          request) :
    Isolated views ok v request where
  response := fun s s' hOk hOk' hSame =>
    (hCases (obs s')).response s s'
      ⟨hOk, hReads s s' hOk hOk' hSame⟩ ⟨hOk', rfl⟩ hSame
  view := fun s s' hOk hOk' hSame =>
    (hCases (obs s')).view s s'
      ⟨hOk, hReads s s' hOk hOk' hSame⟩ ⟨hOk', rfl⟩ hSame
  others := fun s hOk =>
    (hCases (obs s)).others s ⟨hOk, rfl⟩

/- A first part, and then the rest with its result. -/
theorem bind
    {first : S → A × S}
    {rest : A → S → R × S}
    (hFirst : Isolated views ok v first)
    (hOk : ∀ s, ok s → ok' (first s).2)
    (hRest : ∀ a, Isolated views ok' v (rest a)) :
    Isolated views ok v
      (fun s => rest (first s).1 (first s).2) where
  response := by
    intro s s' h h' hSame
    rw [← hFirst.response s s' h h' hSame]
    exact (hRest _).response _ _ (hOk s h) (hOk s' h')
      (hFirst.view s s' h h' hSame)
  view := by
    intro s s' h h' hSame
    rw [← hFirst.response s s' h h' hSame]
    exact (hRest _).view _ _ (hOk s h) (hOk s' h')
      (hFirst.view s s' h h' hSame)
  others := fun s h u hOther =>
    views.trans u s (first s).2 _
      (hFirst.others s h u hOther)
      ((hRest _).others _ (hOk s h) u hOther)

/- A write, and then the rest of the request. -/
theorem after
    {act : S → S}
    {rest : S → R × S}
    (hWrites : Writes views ok v act)
    (hOk : ∀ s, ok s → ok' (act s))
    (hRest : Isolated views ok' v rest) :
    Isolated views ok v (fun s => rest (act s)) :=
  bind (write hWrites ()) hOk (fun _ => hRest)

theorem mono
    {request : S → R × S}
    (hIsolated : Isolated views ok v request)
    (hImp : ∀ s, ok' s → ok s) :
    Isolated views ok' v request where
  response := fun s s' h h' =>
    hIsolated.response s s' (hImp s h) (hImp s' h')
  view := fun s s' h h' =>
    hIsolated.view s s' (hImp s h) (hImp s' h')
  others := fun s h => hIsolated.others s (hImp s h)

/- Only the states in question matter. -/
theorem congr
    {request request' : S → R × S}
    (hIsolated : Isolated views ok v request)
    (hEq : ∀ s, ok s → request' s = request s) :
    Isolated views ok v request' where
  response := by
    intro s s' hOk hOk' hSame
    rw [hEq s hOk, hEq s' hOk']
    exact hIsolated.response s s' hOk hOk' hSame
  view := by
    intro s s' hOk hOk' hSame
    rw [hEq s hOk, hEq s' hOk']
    exact hIsolated.view s s' hOk hOk' hSame
  others := by
    intro s hOk
    rw [hEq s hOk]
    exact hIsolated.others s hOk

end Isolated

end Foundations
