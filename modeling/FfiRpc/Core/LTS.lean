import Mathlib.Logic.Relation

/-!
# Labelled transition systems

Runs of a system that takes one labelled step at a time, and the two rules the
development uses on them: an inductive invariant holds in every reachable
state (`Reachable.invariant`), and a run that only takes steps meeting a guard
is a run of the restricted system (`restrict`), whose invariants may use the
guard. A system given by a step function (`ofFn`) is run by `exec`.
-/
namespace FfiRpc

/-- A system with states `σ` and step labels `α`. -/
structure LTS (σ α : Type) where
  init : σ → Prop
  step : σ → α → σ → Prop

namespace LTS
variable {σ α : Type} {L : LTS σ α}

/-- States some run from an initial state ends in. -/
inductive Reachable (L : LTS σ α) : σ → Prop
  | init {s} : L.init s → Reachable L s
  | step {s a s'} : Reachable L s → L.step s a s' → Reachable L s'

/-- `Run s as s'`: the steps `as`, in order, lead from `s` to `s'`. -/
inductive Run (L : LTS σ α) : σ → List α → σ → Prop
  | nil {s} : Run L s [] s
  | cons {s a s' as s''} : L.step s a s' → Run L s' as s'' → Run L s (a :: as) s''

/-- The runs that only take steps meeting `C`. -/
def restrict (L : LTS σ α) (C : σ → α → Prop) : LTS σ α where
  init := L.init
  step s a s' := L.step s a s' ∧ C s a

theorem Reachable.invariant {I : σ → Prop} (h0 : ∀ s, L.init s → I s)
    (hstep : ∀ s a s', I s → L.step s a s' → I s') {s : σ} (h : L.Reachable s) : I s := by
  induction h with
  | init hs => exact h0 _ hs
  | step _ hs ih => exact hstep _ _ _ ih hs

theorem Reachable.run {s s' : σ} {as : List α} (h : L.Reachable s) (hr : L.Run s as s') :
    L.Reachable s' := by
  induction hr with
  | nil => exact h
  | cons hs _ ih => exact ih (h.step hs)

theorem Reachable.of_restrict {C : σ → α → Prop} {s : σ} (h : (L.restrict C).Reachable s) :
    L.Reachable s :=
  h.invariant (fun _ h0 => .init h0) fun _ _ _ hs hst => hs.step hst.1

/-! ## Systems given by a step function -/

variable {init : σ → Prop} {f : σ → α → Option σ}

/-- A step that is not enabled gives `none`. -/
def ofFn (init : σ → Prop) (f : σ → α → Option σ) : LTS σ α where
  init := init
  step s a s' := f s a = some s'

/-- Takes the steps in order, each where its guard `C` holds. -/
def exec (f : σ → α → Option σ) (C : σ → α → Bool) : σ → List α → Option σ
  | s, [] => some s
  | s, a :: as => if C s a then (f s a).bind fun s' => exec f C s' as else none

theorem Reachable.exec {C : σ → α → Bool} {s s' : σ} {as : List α}
    (h : ((ofFn init f).restrict fun s a => C s a).Reachable s) (hx : exec f C s as = some s') :
    ((ofFn init f).restrict fun s a => C s a).Reachable s' := by
  induction as generalizing s with
  | nil => cases hx; exact h
  | cons a as ih =>
    rw [LTS.exec] at hx
    split at hx
    · rename_i hC
      obtain ⟨s1, h1, hx⟩ := Option.bind_eq_some_iff.1 hx
      exact ih (h.step ⟨h1, hC⟩) hx
    · cases hx

end LTS
end FfiRpc
