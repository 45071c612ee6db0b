import FfiRpc.Core.Fallible
import FfiRpc.Store.Inv

/-!
# A rule for cascades

A cascade is made of removals from structs, deletions of records and releases of objects.
If each of them, on members of a set `G`, keeps a condition `I` and does no more than a
transitive relation `R` allows, and the records of members name members only, then the
release of a member with all that follows from it does no more either (`Sweep.free`).
-/
namespace FfiRpc

open State

/-- Deletions of members. -/
def Deletes (G : Set Addr) (I : State → Prop) (R : State → State → Prop)
    (del : State → Addr → Except Fault State) : Prop :=
  ∀ st q st', I st → q ∈ G → del st q = .ok st' → R st st'

structure Sweep (G : Set Addr) (I : State → Prop) (R : State → State → Prop) : Prop where
  refl : ∀ {st}, I st → R st st
  trans : ∀ {st st' st''}, R st st' → R st' st'' → R st st''
  keep : ∀ {st st'}, R st st' → I st'
  delPrec : ∀ {st p}, I st → p ∈ G → R st (st.delPrec p)
  recorded : ∀ {st p r}, I st → p ∈ G → st.tracker.lookup p = some r →
    ∀ k, ∀ S ∈ r.recorded k, S ∈ G
  remove : ∀ {del st S key st' ret}, Deletes G I R del → I st → S ∈ G →
    rpcStructRemoveBy del st S key = .ok (st', ret) → R st st'
  release : ∀ {st t a st'}, I st → a ∈ G → st.release t a = .ok st' → R st st'

namespace Sweep
variable {G : Set Addr} {I : State → Prop} {R : State → State → Prop} {E : Env}
  {del : State → Addr → Except Fault State} {st st' : State}

/-- A loop of steps. -/
theorem steps {κ : Type} (h : Sweep G I R) (hst : I st) {f : State → κ → Except Fault State}
    (ks : List κ) (hstep : ∀ st k st', k ∈ ks → I st → f st k = .ok st' → R st st')
    (hok : ks.foldlM f st = .ok st') : R st st' :=
  foldlM_ok_of_mem (R st) ks st st'
    (fun s k s' hk hs hf => h.trans hs (hstep s k s' hk (h.keep hs) hf)) (h.refl hst) hok

theorem freeInternal (h : Sweep G I R) (hdel : Deletes G I R del) (hst : I st) {S : Addr} (hS : S ∈ G)
    (hok : rpcStructFreeInternalBy E del st S = .ok st') : R st st' := by
  obtain ⟨st1, hloop, hrel⟩ := bind_eq_ok.1 hok
  unfold rpcStructFreeInternalsBy at hloop
  cases hs : st.struct? S with
  | none =>
    rw [hs] at hloop
    cases hloop
  | some s =>
    simp only [hs] at hloop
    have h1 := h.steps hst _ (fun st k st' _ hst hok => by
      obtain ⟨ret, hok⟩ := map_fst_eq_ok hok
      exact h.remove hdel hst hS hok) hloop
    exact h.trans h1 (h.release (h.keep h1) hS hrel)

theorem freeBy (h : Sweep G I R) (hdel : Deletes G I R del) (hst : I st)
    {internal : State → Addr → Except Fault State} {x : Addr} (hx : x ∈ G)
    (hint : internal st x = .ok st' → R st st') (hok : freeBy del internal st x = .ok st') :
    R st st' := by
  unfold FfiRpc.freeBy at hok
  split at hok
  · cases hok
    exact h.refl hst
  · split at hok
    · exact hdel st x st' hst hx hok
    · exact hint hok

theorem destroy (h : Sweep G I R) (hdel : Deletes G I R del) (hst : I st) {p : Addr} (hp : p ∈ G)
    {c : PrecPtrCtx} (hok : rpcStructPrecCtxDestroyBy E del st p c = .ok st') : R st st' := by
  unfold rpcStructPrecCtxDestroyBy at hok
  split at hok
  · cases hok
    exact h.refl hst
  · exact h.freeInternal hdel hst hp hok
  · exact h.freeBy hdel hst hp (h.release hst hp) hok
  · exact h.freeBy hdel hst hp (h.release hst hp) hok

/-- The zero callback of a record, which has left the tracker. -/
theorem onzero (h : Sweep G I R) (hdel : Deletes G I R del) (hst : I st) {p : Addr} (hp : p ∈ G)
    {prec : Prec} (horigins : ∀ k, ∀ S ∈ prec.recorded k, S ∈ G)
    (hok : rpcStructOnzeroCbBy E del st p prec = .ok st') : R st st' := by
  unfold rpcStructOnzeroCbBy at hok
  cases hc : prec.context with
  | none =>
    rw [hc] at hok
    cases hok
    exact h.refl hst
  | some c =>
    simp only [hc] at hok
    obtain ⟨st1, hloop, hdestroy⟩ := bind_eq_ok.1 hok
    have h1 : R st st1 := by
      refine h.steps hst _ (fun st key st' _ hst hok => ?_) hloop
      unfold onzeroKeyBy at hok
      split at hok
      · cases hok
        exact h.refl hst
      · rename_i ctx hctx
        refine h.steps hst _ (fun st origin st' horigin hst hok => ?_) hok
        obtain ⟨ret, hok⟩ := map_fst_eq_ok hok
        refine h.remove hdel hst (horigins key origin ?_) hok
        simpa [Prec.recorded, hc, hctx] using horigin
    exact h.trans h1 (h.destroy hdel (h.keep h1) hp hdestroy)

theorem precDelete (h : Sweep G I R) (n : Nat) : Deletes G I R (precDelete E n) := by
  induction n with
  | zero => exact fun st q st' _ _ hok => by cases hok
  | succ n ih =>
    intro st q st' hst hq hok
    unfold FfiRpc.precDelete at hok
    cases hr : st.tracker.lookup q with
    | none =>
      rw [hr] at hok
      cases hok
      exact h.refl hst
    | some prec =>
      simp only [hr] at hok
      have h1 := h.delPrec hst hq
      exact h.trans h1 (h.onzero ih (h.keep h1) hq (h.recorded hst hq hr) hok)

/-- Freeing a struct of the set. -/
theorem free (h : Sweep G I R) (hst : I st) {S : Addr} (hS : S ∈ G)
    (hok : rpcStructFree E st S = .ok st') : R st st' :=
  h.freeBy (h.precDelete _) hst hS (h.freeInternal (h.precDelete _) hst hS) hok

end Sweep

end FfiRpc
