import FfiRpc.Store.Runs

/-!
# A removal that reaches its own struct

`rpc_struct_remove` decrements the object of the entry and only then takes the entry
out of the map (rpc_struct.c:301-313). The decrement may release the object, and the
cascade from there may release the struct being edited, with the entry still in it.

`remove_ok_iff`: the removal goes through exactly when the struct is not among the
objects that dropping the entry leaves unreferenced (`State.reclaimed`). If it is,
the map operation after the decrement is an access to a released struct
(`remove_fault`).
-/
namespace FfiRpc

open State
open Ownership (Closed Reclaimed)

section
variable {E : Env} {extra : Addr → Nat} {st : State} {S : Addr} {k : CStr}

/-- Every object that dropping `S[k]` leaves unreferenced is gone once the decrement has
run, and there is one only if the entry was the last reference to its object. -/
theorem decrement_reclaims (E : Env) (h : Inv ∅ extra ∅ ∅ st) {p : Addr}
    (hh : st.held S k = some p) (hS : S ∈ st.reclaimed extra ∅ {(S, k)}) :
    ∃ st1, precDecrementBy (precDelete E st.fuel) st p (some ⟨S, some k, none⟩) = .ok st1 ∧
      ∀ a ∈ st.reclaimed extra ∅ {(S, k)}, st1.heap.lookup a = none := by
  -- the entry was the last reference, or nothing would be reclaimed
  obtain ⟨hx, honly⟩ : extra p = 0 ∧ st.holders p = {(S, k)} := by
    by_contra hmore
    have hempty : ∀ a ∈ st.reclaimed extra ∅ {(S, k)}, a ∈ (∅ : Set Addr) := fun a ha => by
      refine Ownership.reclaimed_subset (X := ∅) (fun q e hq he hall => ?_) subset_rfl ha
      exfalso
      have hcut : ∀ e', st.heldAt e' = some q → e' = (S, k) := by
        intro e' he'
        by_contra hne
        exact hall e' he' hne
      have hqp : q = p := by
        rw [hcut e he, heldAt, hh] at he
        exact (Option.some.inj he).symm
      subst hqp
      refine hmore ⟨Nat.eq_zero_of_not_pos hq, Finset.eq_singleton_iff_unique_mem.2
        ⟨mem_holders.2 hh, fun e' he' => hcut e' (mem_holders.1 he')⟩⟩
    exact hempty S hS
  have hX : Closed Prod.fst st.heldAt {q | 0 < raised ∅ extra q} {(S, k)}
      (st.reclaimed extra ∅ {(S, k)}) := Ownership.closed_reclaimed
  have hc : Casc ∅ extra (st.reclaimed extra ∅ {(S, k)}) st ∅ ∅ st :=
    ⟨h, Set.empty_subset _, fun _ _ => rfl, fun _ _ _ h => h,
      fun q r h1 h2 => by rw [h1] at h2; cases h2⟩
  obtain ⟨st1, hok, hc1, -, hgone⟩ := decrement_last (precDelete_spec E hX st.fuel) hX hc
    (Nat.le_refl _) (.inr rfl) hh (Set.notMem_empty p) (Finset.notMem_empty p) hx honly
  refine ⟨st1, hok, fun a ha => ?_⟩
  refine Ownership.reclaimed_subset (X := {a | st1.heap.lookup a = none}) (fun q e hq he hall => ?_)
    (Set.empty_subset _) ha
  obtain ⟨S', k'⟩ := e
  obtain ⟨r, o, hr, -, -⟩ := h.tracked_of_held (Set.notMem_empty q) he
  by_cases hqp : q = p
  · rw [hqp]
    exact hgone
  · cases hr1 : st1.tracker.lookup q with
    | none =>
      rcases hc1.kept q r hr hr1 with hD | hnone | hoff
      · exact absurd (by simpa using hD) hqp
      · exact hnone
      · cases hoff.1
    | some r1 =>
      -- a record left counts an entry of a struct that is alive
      exfalso
      obtain ⟨hpos, o1, -, hrec⟩ := hc1.inv.tracked q r1 hr1
      have hcard := hrec.count
      rw [Finset.sdiff_empty] at hcard
      have hq0 : extra q = 0 := Nat.eq_zero_of_not_pos hq
      obtain ⟨⟨S2, k2⟩, hm⟩ := Finset.card_pos.1 (show 0 < (st1.holders q).card by omega)
      obtain ⟨e2, he2, ht2⟩ := held_eq_some.1 (mem_holders.1 hm)
      have hold : st.held S2 k2 = some q := held_eq_some.2 ⟨e2, hc1.fewer S2 k2 e2 he2, ht2⟩
      by_cases hcut : (S2, k2) = (S, k)
      · cases hcut
        rw [hh] at hold
        exact hqp (Option.some.inj hold).symm
      · have hdead : st1.heap.lookup S2 = none := hall (S2, k2) hold hcut
        obtain ⟨s2, hs2, -⟩ := entry_eq_some.1 he2
        rw [struct?_eq_some, hdead] at hs2
        cases hs2

/-- The struct is released by the decrement: the map operation finds it gone. -/
theorem remove_fault (E : Env) (h : Inv ∅ extra ∅ ∅ st) {s : RpcStruct} (hs : st.struct? S = some s)
    (hS : S ∈ st.reclaimed extra ∅ {(S, k)}) :
    rpcStructRemove E st S k = .error (.useAfterFree S) := by
  cases hh : st.held S k with
  | none =>
    exfalso
    refine Set.notMem_empty S (Ownership.reclaimed_subset (X := ∅) (fun q e _ he hall => ?_)
      subset_rfl hS)
    have hcut : e = (S, k) := by
      by_contra hne
      exact hall e he hne
    rw [hcut, heldAt, hh] at he
    cases he
  | some p =>
    obtain ⟨e, he, ht⟩ := held_eq_some.1 hh
    rw [entry_of_struct hs] at he
    obtain ⟨st1, hok, hgone⟩ := decrement_reclaims E h hh hS
    have hdead : st1.struct? S = none := by
      rw [struct?, hgone S hS]
    rw [rpcStructRemove, rpcStructRemoveBy, hs]
    simp only [he, untrackElementBy, ht, hok, bind, Except.bind, dropEntry, hdead]

/-- A removal goes through, that is, everything after the decrement acts on a live
struct and on the cell of its entry, exactly when dropping the entry does not leave
the struct itself unreferenced. -/
theorem remove_ok_iff (h : api.Reachable st) (E : Env) {s : RpcStruct} (hs : st.struct? S = some s)
    (k : CStr) :
    (∃ st' ret, rpcStructRemove E st S k = .ok (st', ret)) ↔
      S ∉ st.reclaimed st.surplus ∅ {(S, k)} := by
  have hinv := (api_wf h).inv
  refine ⟨fun hok hS => ?_, fun hS => ?_⟩
  · obtain ⟨st', ret, hok⟩ := hok
    rw [remove_fault E hinv hs hS] at hok
    cases hok
  · obtain ⟨st', hok, -⟩ := remove_top_spec E hinv hs k hS
    exact ⟨st', _, hok⟩

/-- A struct that nothing holds is safe whatever is below it. -/
theorem remove_ok_iff_shared : ∃ st s, api.Reachable st ∧ st.struct? 1 = some s ∧
    st.held 1 [107] = some 2 ∧ ∃ st' ret, rpcStructRemove .bump st 1 [107] = .ok (st', ret) := by
  have h1 := graph_step .bump .structCreate (.init rfl) trivial trivial rfl
  have h2 := graph_step .bump (.sizedbufCreate [7]) h1 trivial trivial rfl
  have h3 := graph_step .bump (.set 1 [107] (.sizedbuf 2)) h2
    ⟨⟨_, rfl⟩, trivial, fun p hp _ => by cases hp; exact ⟨_, rfl, rfl⟩⟩ trivial rfl
  obtain ⟨st, s, h, hs, hh, honly⟩ : ∃ (st : State) (s : RpcStruct), api.Reachable st ∧
      st.struct? 1 = some s ∧ st.held 1 [107] = some 2 ∧ st.pairs = [(1, [107])] :=
    ⟨_, _, h3.of_restrict, rfl, rfl, rfl⟩
  refine ⟨st, s, h, hs, hh, (remove_ok_iff h .bump hs [107]).2 fun hin => ?_⟩
  have honly2 : ∀ a ∈ st.reclaimed st.surplus ∅ {((1 : Addr), [(107 : UInt8)])}, a ∈ ({2} : Set Addr) :=
    fun a ha => by
      refine Ownership.reclaimed_subset (X := {2}) (fun q e _ he _ => ?_) (Set.empty_subset _) ha
      obtain ⟨e', he', -⟩ := held_eq_some.1 he
      have hm := mem_pairs he'
      rw [honly, List.mem_singleton] at hm
      have hq : st.held 1 [107] = some q := by
        rw [show (1 : Addr) = e.1 from (congrArg Prod.fst hm).symm,
          show [(107 : UInt8)] = e.2 from (congrArg Prod.snd hm).symm]
        exact he
      rw [hh] at hq
      exact (Option.some.inj hq).symm
  cases honly2 1 hin

/-- Two structs that hold each other: removing the key of one releases the other, which
releases the first. -/
theorem remove_frees_self : ∃ st s, api.Reachable st ∧ st.struct? 1 = some s ∧
    st.held 1 [107] = some 2 ∧ st.held 2 [107] = some 1 ∧
    rpcStructRemove .bump st 1 [107] = .error (.useAfterFree 1) := by
  have h1 := graph_step .bump .structCreate (.init rfl) trivial trivial rfl
  have h2 := graph_step .bump .structCreate h1 trivial trivial rfl
  have h3 := graph_step .bump (.set 1 [107] (.struct 2)) h2
    ⟨⟨_, rfl⟩, trivial, fun p hp _ => by cases hp; exact ⟨_, rfl, rfl⟩⟩ trivial rfl
  have h4 := graph_step .bump (.set 2 [107] (.struct 1)) h3
    ⟨⟨_, rfl⟩, trivial, fun p hp _ => by cases hp; exact ⟨_, rfl, rfl⟩⟩ trivial rfl
  exact ⟨_, _, h4.of_restrict, rfl, rfl, rfl, rfl⟩

end

end FfiRpc
