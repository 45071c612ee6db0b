import Mathlib.Data.Fintype.Card
import Mathlib.Data.Set.Finite.Basic
import Mathlib.Logic.Relation

/-!
# How deep a relation nests

`DepthLE r n a`: chains of `r` from `a` have at most `n` members. That is what a
recursion along `r` with bound `n` can rely on. Below an element from which no
cycle is reached, and which reaches finitely many elements, there is such a
bound, and only there (`acyclic_iff_depthLE`).
-/
namespace FfiRpc.Nesting
variable {α : Type} {r : α → α → Prop}

inductive DepthLE (r : α → α → Prop) : Nat → α → Prop
  | mk {n a} : (∀ b, r a b → DepthLE r n b) → DepthLE r (n + 1) a

/-- No element reached from `a` is on a cycle. -/
def Acyclic (r : α → α → Prop) (a : α) : Prop :=
  ∀ b, Relation.ReflTransGen r a b → ¬ Relation.TransGen r b b

theorem DepthLE.mono {n m : Nat} {a : α} (h : DepthLE r n a) (hnm : n ≤ m) : DepthLE r m a := by
  induction h generalizing m with
  | @mk n a _ ih =>
    obtain ⟨m, rfl⟩ : ∃ k, m = k + 1 := ⟨m - 1, by omega⟩
    exact .mk fun b hb => ih b hb (by omega)

/-- One bound for finitely many elements. -/
theorem exists_bound {P : Nat → α → Prop} (hmono : ∀ n m a, P n a → n ≤ m → P m a) (l : List α)
    (h : ∀ a ∈ l, ∃ n, P n a) : ∃ n, ∀ a ∈ l, P n a := by
  induction l with
  | nil => exact ⟨0, nofun⟩
  | cons a l ih =>
    obtain ⟨n, hn⟩ := h a List.mem_cons_self
    obtain ⟨m, hm⟩ := ih fun b hb => h b (List.mem_cons_of_mem _ hb)
    refine ⟨max n m, fun b hb => ?_⟩
    rcases List.mem_cons.1 hb with hb | hb
    · rw [hb]
      exact hmono n _ a hn (Nat.le_max_left n m)
    · exact hmono m _ b (hm b hb) (Nat.le_max_right n m)

theorem Acyclic.depthLE {a : α} (h : Acyclic r a) {l : List α}
    (hfin : ∀ b c, r b c → c ∈ l) : ∃ n, DepthLE r n a := by
  let V := {b : α // b ∈ a :: l ∧ Relation.ReflTransGen r a b}
  have : Finite V := (List.finite_toSet (a :: l)).subset fun b hb => hb.1
  let below : V → V → Prop := fun b c => Relation.TransGen r c.1 b.1
  have : IsTrans V below := ⟨fun _ _ _ h1 h2 => h2.trans h1⟩
  have : Std.Irrefl below := ⟨fun b hb => h b.1 b.2.2 hb⟩
  have hwf : WellFounded below := Finite.wellFounded_of_trans_of_irrefl below
  have hall : ∀ v : V, ∃ n, DepthLE r n v.1 := by
    intro v
    induction v using hwf.induction with
    | _ v ih =>
      -- the successors of `v` are in `l`; one bound serves them all
      obtain ⟨n, hn⟩ := exists_bound (P := fun n c => r v.1 c → DepthLE r n c)
        (fun n m c hc hnm hv => (hc hv).mono hnm) l fun c _ => by
          by_cases hv : r v.1 c
          · obtain ⟨n, hn⟩ := ih ⟨c, List.mem_cons_of_mem _ (hfin v.1 c hv), v.2.2.tail hv⟩
              (.single hv)
            exact ⟨n, fun _ => hn⟩
          · exact ⟨0, fun hc => absurd hc hv⟩
      exact ⟨n + 1, .mk fun c hc => hn c (hfin v.1 c hc) hc⟩
  exact hall ⟨a, List.mem_cons_self, .refl⟩

theorem DepthLE.of_path {n : Nat} {a b : α} (h : DepthLE r n a) (hab : Relation.ReflTransGen r a b) :
    DepthLE r n b := by
  induction hab with
  | refl => exact h
  | tail _ hbc ih =>
    obtain ⟨hb⟩ := ih
    exact (hb _ hbc).mono (Nat.le_succ _)

theorem DepthLE.acyclic {n : Nat} {a : α} (h : DepthLE r n a) : Acyclic r a := by
  intro b hab hcycle
  have hb := h.of_path hab
  clear h
  induction hb with
  | @mk n b _ ih =>
    obtain ⟨c, hbc, hcb⟩ := Relation.TransGen.head'_iff.1 hcycle
    exact ih c hbc (hab.tail hbc) (Relation.TransGen.tail' hcb hbc)

/-- Within finitely many elements, a bound is the absence of cycles. -/
theorem acyclic_iff_depthLE {a : α} {l : List α} (hfin : ∀ b c, r b c → c ∈ l) :
    Acyclic r a ↔ ∃ n, DepthLE r n a :=
  ⟨fun h => h.depthLE hfin, fun ⟨_, h⟩ => h.acyclic⟩

end FfiRpc.Nesting
