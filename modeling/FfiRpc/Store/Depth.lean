import FfiRpc.Store.DeepApi
import FfiRpc.Store.Remove

/-!
# How deep a release goes

The zero callback removes the recorded entries of its object and then the object's own, each
removal decrements another object, and so on; on a cycle this comes back to structs whose
removal is in progress. Every nested `prec_delete` has taken its record out of the tracker
before it goes on, so the nesting is at most the number of records, and each loop is over the
keys of one map or one record.

`release_ends`: every release of a live object returns, and so does the cascade below every
removal, with no more nesting than there are records.
-/
namespace FfiRpc

open State

/-! ## A greater bound -/

section Mono
variable {E : Env} {f g : State → Addr → Except Fault State}

/-- `g` returns what `f` returns. -/
def Sharper (f g : State → Addr → Except Fault State) : Prop :=
  ∀ st p st', f st p = .ok st' → g st p = .ok st'

theorem precDecrement_mono (h : Sharper f g) {st st' : State} {p : Addr} {udata : Option PrecRpcUdata}
    (hok : precDecrementBy f st p udata = .ok st') : precDecrementBy g st p udata = .ok st' := by
  unfold precDecrementBy at hok ⊢
  split at hok
  · exact hok
  · split at hok
    · rename_i hzero
      rw [if_pos hzero]
      exact h _ p st' hok
    · rename_i hpos
      rw [if_neg hpos]
      exact hok

theorem untrackElement_mono (h : Sharper f g) {st st' : State} {S : Addr} {key : CStr} {e : RpcTypeT}
    (hok : untrackElementBy f st S key e = .ok st') : untrackElementBy g st S key e = .ok st' := by
  unfold untrackElementBy at hok ⊢
  split at hok
  · exact precDecrement_mono h hok
  · exact hok

theorem remove_mono (h : Sharper f g) {st : State} {S : Addr} {key : CStr} {r : State × Nat}
    (hok : rpcStructRemoveBy f st S key = .ok r) : rpcStructRemoveBy g st S key = .ok r := by
  unfold rpcStructRemoveBy at hok ⊢
  split at hok
  · cases hok
  · split at hok
    · exact hok
    · obtain ⟨st1, h1, hrest⟩ := bind_eq_ok.1 hok
      exact bind_eq_ok.2 ⟨st1, untrackElement_mono h h1, hrest⟩

theorem removeOne_mono (h : Sharper f g) (S : Addr) (key : CStr) (st st' : State)
    (hok : Prod.fst <$> rpcStructRemoveBy f st S key = .ok st') :
    Prod.fst <$> rpcStructRemoveBy g st S key = .ok st' := by
  obtain ⟨ret, hok⟩ := map_fst_eq_ok hok
  rw [remove_mono h hok]
  rfl

theorem freeInternals_mono (h : Sharper f g) : Sharper (rpcStructFreeInternalsBy E f)
    (rpcStructFreeInternalsBy E g) := by
  intro st S st' hok
  unfold rpcStructFreeInternalsBy at hok ⊢
  split at hok
  · cases hok
  · exact foldlM_congr_ok (fun st key st' => removeOne_mono h S key st st') hok

theorem freeInternal_mono (h : Sharper f g) : Sharper (rpcStructFreeInternalBy E f)
    (rpcStructFreeInternalBy E g) := by
  intro st S st' hok
  obtain ⟨st1, h1, hrest⟩ := bind_eq_ok.1 hok
  exact bind_eq_ok.2 ⟨st1, freeInternals_mono h st S st1 h1, hrest⟩

theorem freeBy_mono (h : Sharper f g) {i j : State → Addr → Except Fault State} (hij : Sharper i j) :
    Sharper (freeBy f i) (freeBy g j) := by
  intro st x st' hok
  unfold freeBy at hok ⊢
  split at hok
  · rename_i h0
    rw [if_pos h0]
    exact hok
  · rename_i h0
    rw [if_neg h0]
    split at hok
    · exact h st x st' hok
    · exact hij st x st' hok

theorem precCtxDestroy_mono (h : Sharper f g) (st : State) (p : Addr) (c : PrecPtrCtx) (st' : State)
    (hok : rpcStructPrecCtxDestroyBy E f st p c = .ok st') :
    rpcStructPrecCtxDestroyBy E g st p c = .ok st' := by
  unfold rpcStructPrecCtxDestroyBy at hok ⊢
  split at hok
  · exact hok
  · exact freeInternal_mono h st p st' hok
  · exact freeBy_mono h (fun _ _ _ => id) st p st' hok
  · exact freeBy_mono h (fun _ _ _ => id) st p st' hok

theorem onzero_mono (h : Sharper f g) {st st' : State} {p : Addr} {r : Prec}
    (hok : rpcStructOnzeroCbBy E f st p r = .ok st') : rpcStructOnzeroCbBy E g st p r = .ok st' := by
  unfold rpcStructOnzeroCbBy at hok ⊢
  split at hok
  · exact hok
  · obtain ⟨st1, h1, hrest⟩ := bind_eq_ok.1 hok
    refine bind_eq_ok.2 ⟨st1, foldlM_congr_ok (fun st key st' hkey => ?_) h1,
      precCtxDestroy_mono h _ _ _ _ hrest⟩
    unfold onzeroKeyBy at hkey ⊢
    split at hkey
    · exact hkey
    · exact foldlM_congr_ok (fun st origin st' => removeOne_mono h origin key st st') hkey

theorem precDelete_succ (n : Nat) : Sharper (precDelete E n) (precDelete E (n + 1)) := by
  induction n with
  | zero =>
    intro st p st' hok
    cases hok
  | succ n ih =>
    intro st p st' hok
    unfold precDelete at hok ⊢
    split at hok
    · exact hok
    · exact onzero_mono ih hok

theorem precDelete_mono {n m : Nat} (hnm : n ≤ m) : Sharper (precDelete E n) (precDelete E m) := by
  induction hnm with
  | refl => exact fun _ _ _ => id
  | step _ ih => exact fun st p st' hok => precDelete_succ _ st p st' (ih st p st' hok)

end Mono

/-! ## The cascades -/

/-- The release function of a type, over `prec_delete`. -/
def rpcFreeBy (E : Env) (del : State → Addr → Except Fault State) :
    RpcTypes → State → Addr → Except Fault State
  | .struct => rpcStructFreeBy E del
  | .sizedbuf => rpcSizedbufFreeBy del
  | .function => rpcFunctionFreeBy del
  | _ => fun st _ => .ok st

section
variable {E : Env} {st : State}

theorem rpcFree_eq (t : RpcTypes) (x : Addr) :
    rpcFree E t st x = rpcFreeBy E (precDelete E st.fuel) t st x := by
  cases t <;> rfl

theorem rpcFree_mono {f g : State → Addr → Except Fault State} (h : Sharper f g) (t : RpcTypes) :
    Sharper (rpcFreeBy E f t) (rpcFreeBy E g t) := by
  cases t with
  | struct => exact freeBy_mono h (freeInternal_mono h)
  | sizedbuf => exact freeBy_mono h fun _ _ _ => id
  | function => exact freeBy_mono h fun _ _ _ => id
  | _ => exact fun _ _ _ => id

/-- The cascade below a removal returns, also where it releases the struct. -/
theorem untrackElement_ends (E : Env) (h : WF st) {S : Addr} {s : RpcStruct}
    (hs : st.struct? S = some s) {k : CStr} {e : RpcTypeT} (he : s.map.lookup k = some e) :
    ∃ st1, untrackElementBy (precDelete E st.fuel) st S k e = .ok st1 := by
  by_cases hS : S ∈ st.reclaimed st.surplus ∅ {(S, k)}
  · unfold untrackElementBy
    cases ht : e.target with
    | none => exact ⟨st, rfl⟩
    | some p =>
      have hheld : st.held S k = some p := held_eq_some.2 ⟨e, by rw [entry_of_struct hs, he], ht⟩
      obtain ⟨st1, hok, -⟩ := decrement_reclaims E h.inv hheld hS
      exact ⟨st1, hok⟩
  · obtain ⟨st', hok, -⟩ := remove_top_spec E h.inv hs k hS
    unfold rpcStructRemove rpcStructRemoveBy at hok
    simp only [hs, he] at hok
    obtain ⟨st1, h1, -⟩ := bind_eq_ok.1 hok
    exact ⟨st1, h1⟩

end

/-- The releases of a live object and the cascade below a removal return, whatever the bound,
from the number of records on; after the cascade a removal has only the map to change. -/
theorem release_ends {args : ArgOrder} {st : State} (h : (fullApi args).Reachable st) (E : Env) :
    (∀ x o, st.heap.lookup x = some o →
      ∃ st', ∀ n, st.fuel ≤ n → rpcFreeBy E (precDelete E n) o.type st x = .ok st') ∧
    ∀ S s k, st.struct? S = some s →
      (∀ e, s.map.lookup k = some e → ∃ st1, ∀ n, st.fuel ≤ n →
        untrackElementBy (precDelete E n) st S k e = .ok st1) ∧
      ∃ r, r ≠ .error .outOfFuel ∧
        ∀ n, st.fuel ≤ n → rpcStructRemoveBy (precDelete E n) st S k = r := by
  have hwf := (fullApi_inv h).wf
  have hcascade : ∀ S s k e, st.struct? S = some s → s.map.lookup k = some e →
      ∃ st1, ∀ n, st.fuel ≤ n → untrackElementBy (precDelete E n) st S k e = .ok st1 := by
    intro S s k e hs he
    obtain ⟨st1, hok⟩ := untrackElement_ends E hwf hs he
    exact ⟨st1, fun n hn => untrackElement_mono (precDelete_mono hn) hok⟩
  refine ⟨fun x o ho => ?_, fun S s k hs => ⟨fun e he => hcascade S s k e hs he, ?_⟩⟩
  · obtain ⟨st', hok, -⟩ := free_spec E hwf.inv ho (Finset.notMem_empty x)
    rw [rpcFree_eq] at hok
    exact ⟨st', fun n hn => rpcFree_mono (precDelete_mono hn) o.type st x st' hok⟩
  · cases he : s.map.lookup k with
    | none =>
      refine ⟨.ok (st, 1), nofun, fun n _ => ?_⟩
      unfold rpcStructRemoveBy
      rw [hs]
      simp only [he]
    | some e =>
      obtain ⟨st1, hok⟩ := hcascade S s k e hs he
      refine ⟨dropEntry st1 S k >>= fun st2 => .ok (st2, 0), fun hfuel => ?_, fun n hn => ?_⟩
      · rcases bind_eq_error.1 hfuel with hdrop | ⟨st2, -, hr⟩
        · unfold dropEntry at hdrop
          split at hdrop
          · cases hdrop
          · split at hdrop <;> cases hdrop
        · cases hr
      · unfold rpcStructRemoveBy
        rw [hs]
        simp only [he, hok n hn]
        rfl

/-- Two structs that hold each other, one of them itself as well. -/
theorem release_ends_cycle : ∃ st, st.held 1 [107] = some 2 ∧ st.held 2 [107] = some 1 ∧
    st.held 2 [108] = some 2 ∧
    (∃ st', ∀ n, st.fuel ≤ n → rpcStructFreeBy .bump (precDelete .bump n) st 1 = .ok st') ∧
    ∃ r, r ≠ .error .outOfFuel ∧
      ∀ n, st.fuel ≤ n → rpcStructRemoveBy (precDelete .bump n) st 1 [107] = r := by
  obtain ⟨st, hb⟩ : ∃ st, build .bump .empty [.structCreate, .structCreate,
    .set 1 [107] (.struct 2), .set 2 [107] (.struct 1), .set 2 [108] (.struct 2)] = some st :=
    ⟨_, rfl⟩
  have h : (fullApi .getbufFirst).Reachable st := build_full (.init rfl) hb
  obtain ⟨hfree, hremove⟩ := release_ends h .bump
  have hs : ∃ s, st.struct? 1 = some s := by
    cases hb
    exact ⟨_, rfl⟩
  obtain ⟨s, hs⟩ := hs
  exact ⟨st, by cases hb; rfl, by cases hb; rfl, by cases hb; rfl,
    hfree 1 (.struct s) (struct?_eq_some.1 hs), (hremove 1 s [107] hs).2⟩

end FfiRpc
