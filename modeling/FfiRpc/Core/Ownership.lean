import Mathlib.Data.Set.Basic

/-!
# What a release takes with it

Objects `α` are kept alive by references `ε`; reference `e` lives in object
`src e` and `holds e` is the object it refers to, if any. Some objects are
`pinned`: something outside the references keeps them.

`Reclaimed root cut` is the least set of objects that contains `root` and every
object that is not pinned, is held by some reference, and all of whose
references are in `cut` or live in the set. It is what a reference count
releases when the objects of `root` are released and the references of `cut`
are dropped; an unreferenced object is not in it (nobody drops it), and neither
is a cycle that only refers to itself.

`Closed` is the property a set must have to contain everything a cascade can
release, and `reclaimed_subset` the induction rule: `Reclaimed` is the least
closed set above the root.
-/
namespace FfiRpc.Ownership
variable {α ε : Type}

inductive Reclaimed (src : ε → α) (holds : ε → Option α) (pinned root : Set α) (cut : Set ε) :
    α → Prop
  | root {a} : a ∈ root → Reclaimed src holds pinned root cut a
  | orphan {a e} : a ∉ pinned → holds e = some a →
      (∀ e', holds e' = some a → e' ∉ cut → Reclaimed src holds pinned root cut (src e')) →
      Reclaimed src holds pinned root cut a

/-- No object outside `X` can lose its last reference when the references of
`cut` and those in `X` are dropped. -/
def Closed (src : ε → α) (holds : ε → Option α) (pinned : Set α) (cut : Set ε) (X : Set α) : Prop :=
  ∀ a e, a ∉ pinned → holds e = some a → (∀ e', holds e' = some a → e' ∉ cut → src e' ∈ X) → a ∈ X

variable {src : ε → α} {holds holds' : ε → Option α} {pinned root : Set α} {cut : Set ε} {X : Set α}

theorem closed_reclaimed : Closed src holds pinned cut {a | Reclaimed src holds pinned root cut a} :=
  fun _ _ hp he h => .orphan hp he h

/-- `Reclaimed` is contained in every closed set that contains the root. -/
theorem reclaimed_subset (hX : Closed src holds pinned cut X) (hroot : root ⊆ X) {a : α}
    (h : Reclaimed src holds pinned root cut a) : a ∈ X := by
  induction h with
  | root h => exact hroot h
  | orphan hp he _ ih => exact hX _ _ hp he ih

/-- References to the root itself make no difference. -/
theorem Closed.congr (hX : Closed src holds pinned cut X) (hroot : root ⊆ X)
    (h : ∀ e a, a ∉ root → (holds' e = some a ↔ holds e = some a)) :
    Closed src holds' pinned cut X := by
  intro a e hp he hall
  by_cases ha : a ∈ root
  · exact hroot ha
  · exact hX a e hp ((h e a ha).1 he) fun e' he' => hall e' ((h e' a ha).2 he')

end FfiRpc.Ownership
