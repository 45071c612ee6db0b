import FfiRpc.Store.DeepLaws
import FfiRpc.Store.Hash
import FfiRpc.Wire.Send

/-!
# Structs that contain themselves

`rpc_struct_set` takes any live struct, so a struct may come to hold itself, directly or
through others. The release of such a struct ends. The three traversals, serialisation,
deep copy and hash, call themselves for nested structs without looking where they came from:
they end exactly if no struct they reach is on a cycle (`traversals_stop_iff`).
-/
namespace FfiRpc

open State
open Nesting (Acyclic DepthLE)

/-! ## Serialisation

Deep copy and hash go down the edges of the graph as it is. Serialisation goes down a copy
from which unknown types and aliases have been removed, so two things have to be seen: that
every nested struct is still reached under one key, and that a fault other than running out
of the bound ends the call too. -/

section Serialize
variable {E : Env} {utf8 : CStr → Bool} {off : Finset Addr} {st0 : State} {extra0 : Addr → Nat}

/-- The main loop up to some turn: what it has done by then, and what the next finds. -/
theorem Prepared.before (h0 : Inv off extra0 ∅ ∅ st0) (hst0 : Stored st0)
    (hoff : ∀ p ∈ off, ∃ x, st0.heap.lookup p = some x) {n : Nat} {extra : Addr → Nat}
    {st st3 : State} {S d : Addr} {s0 s : RpcStruct} {dups : List DupInfo}
    {as bs : List CStr} {acc : State × List (CStr × Json)} (hkeep : Keeps ∅ st0 st)
    (hs0 : st0.struct? S = some s0) (hmap : ∀ k, s.map.lookup k = s0.map.lookup k)
    (hp : Prepared off extra st s d dups st3 (as ++ bs))
    (has : as.foldlM (serializeField utf8 (rpcStructSerialize E utf8 n) d) (st3, []) = .ok acc) :
    ∃ extra', Temp off extra' d acc.1 ∧ Keeps ∅ st0 acc.1 ∧
      ∀ k ∈ bs, ∃ e0, st0.entry S k = some e0 ∧ e0.SameValue (rpcStructGetInternal acc.1 d k) := by
  have hkeep3 : Keeps ∅ st0 st3 := hkeep.trans (hp.frame.keeps.of_dead fun a ha => by
    rw [Set.mem_singleton_iff.1 ha, hp.dead])
  have hentry : ∀ k' ∈ as ++ bs, ∃ e0 e, st0.entry S k' = some e0 ∧
      st3.entry d k' = some e ∧ e0.SameValue e ∧ e0.type ≠ .unknown := by
    intro k' hk'
    obtain ⟨e, he⟩ := (hp.keys k').1 hk'
    obtain ⟨e0, he0, hv, hty, -⟩ := hp.entry k' e he
    exact ⟨e0, e, by rw [entry_of_struct hs0, ← hmap, he0], he, hv, hty⟩
  have hloop : Yields True (as.foldlM (serializeField utf8 (rpcStructSerialize E utf8 n) d) (st3, []))
      (SentFields utf8 off st0 (fun p => extra p + s.refs p) d st3 S as) :=
    serializeField_loop h0 hst0 hp.temp hkeep3 (List.nodup_append.1 hp.nodup).1
      (fun k' hk' => hentry k' (List.mem_append_left _ hk'))
      fun extra' st' p hinv' hst' hkeep' _ hs' => serialize_spec E utf8 True h0 hst0 hoff n extra' st'
        p hinv' hst' hkeep' hs' fun hno => absurd trivial hno
  obtain ⟨extra', htemp, hframe, -, -⟩ := hloop.of_ok has
  refine ⟨extra', htemp, hkeep3.trans hframe.keeps, fun k hk => ?_⟩
  obtain ⟨e0, e, he0, he, hv, -⟩ := hentry k (List.mem_append_right _ hk)
  refine ⟨e0, he0, ?_⟩
  rw [rpcStructGetInternal, hframe.entry (Set.notMem_empty d), he]
  exact hv

/-- The key under which a nested struct is serialised. -/
theorem Prepared.key {extra : Addr → Nat} {st st3 : State} {S d p : Addr} {s : RpcStruct}
    {dups : List DupInfo} {keys : List CStr} (hinv : Inv off extra ∅ ∅ st)
    (hs : st.struct? S = some s) (hp : Prepared off extra st s d dups st3 keys)
    (hedge : st.Edge S p) : ∃ k ∈ keys, s.map.lookup k = some (.struct p) := by
  obtain ⟨k, hk⟩ := hedge
  have hk' : s.map.lookup k = some (.struct p) := (entry_of_struct hs k).symm.trans hk
  obtain ⟨g, hg, hkg⟩ := hp.groups.cover k (Table.mem_keys_iff.2 ⟨_, hk'⟩) p
    (by rw [RpcStruct.holds, hk']; rfl)
  obtain ⟨p', horig, hdups⟩ := hp.groups.held g hg
  have hpp : s.holds g.originalName = some p := by
    rcases List.mem_cons.1 hkg with hkg | hkg
    · rw [← hkg, RpcStruct.holds, hk']
      rfl
    · have hholds := hdups k hkg
      rw [RpcStruct.holds, hk'] at hholds
      rw [horig, ← hholds]
      rfl
  obtain ⟨e, he, ht⟩ := Option.bind_eq_some_iff.1 hpp
  have hstruct : e = .struct p := by
    have htype := hinv.same_target hk ((entry_of_struct hs _).trans he) rfl ht
    cases e <;> cases htype
    cases ht
    rfl
  rw [hstruct] at he
  refine ⟨g.originalName, (hp.keys _).2 ?_, he⟩
  exact hp.all _ _ he (fun hc => by cases hc) fun g' hg' => hp.groups.original_notMem hg hg'

/-- An edge leads to a struct. -/
theorem struct_of_edge (h0 : Inv off extra0 ∅ ∅ st0) {S p : Addr} (hedge : st0.Edge S p) :
    ∃ t, st0.struct? p = some t := by
  obtain ⟨k, hk⟩ := hedge
  obtain ⟨o, ho, hty⟩ := h0.typed S k _ p hk rfl (Set.notMem_empty p) (Finset.notMem_empty _)
  cases o with
  | struct t => exact ⟨t, struct?_eq_some.2 ho⟩
  | sizedbuf b => cases hty
  | function f => cases hty

theorem SameValue_struct {e : RpcTypeT} {p : Addr} :
    (RpcTypeT.struct p).SameValue e ↔ e = .struct p := by
  cases e <;> simp [RpcTypeT.SameValue]

/-- A call that returns went to the end of the nesting. -/
theorem serialize_depth (h0 : Inv off extra0 ∅ ∅ st0) (hst0 : Stored st0)
    (hoff : ∀ p ∈ off, ∃ x, st0.heap.lookup p = some x) (n : Nat) :
    ∀ (extra : Addr → Nat) (st : State) (S : Addr) (r : State × Json), Inv off extra ∅ ∅ st →
      Stored st → Keeps ∅ st0 st → (∃ s, st0.struct? S = some s) →
      rpcStructSerialize E utf8 n st S = .ok r → DepthLE st0.Edge n S := by
  induction n with
  | zero =>
    intro extra st S r _ _ _ _ hok
    cases hok
  | succ n ih =>
    intro extra st S r hinv hst hkeep hs hok
    obtain ⟨s0, hs0⟩ := hs
    obtain ⟨s, hs, -, hmap⟩ := hkeep.struct (Set.notMem_empty S) hs0
    obtain ⟨st1, d, -, -, hfail, hgo⟩ := serialize_prepared E utf8 hinv hst (fun p hp => by
      obtain ⟨x, hx⟩ := hoff p hp
      obtain ⟨x', hx', -⟩ := hkeep p x (Set.notMem_empty p) hx
      exact ⟨x', hx'⟩) hs n
    cases hdups : rpcStructFoundDuplicates E st1 S with
    | error e =>
      rw [hfail e hdups] at hok
      cases hok
    | ok dups =>
      obtain ⟨st3, keys, hp, hrun⟩ := hgo dups hdups
      rw [hrun] at hok
      obtain ⟨r1, hloop, -⟩ := bind_eq_ok.1 hok
      refine .mk fun p hedge => ?_
      have hedge' : st.Edge S p := by
        obtain ⟨k, hk⟩ := hedge
        exact ⟨k, by rw [entry_of_struct hs, hmap, ← entry_of_struct hs0, hk]⟩
      obtain ⟨k, hk, hkp⟩ := hp.key hinv hs hedge'
      obtain ⟨as, bs, acc, acc', hkeys, has, hturn, -⟩ := foldlM_ok_mem hloop hk
      subst hkeys
      obtain ⟨extra', htemp, hkeep', hnext⟩ := hp.before h0 hst0 hoff hkeep hs0 hmap has
      obtain ⟨e0, he0, hv⟩ := hnext k List.mem_cons_self
      rw [entry_of_struct hs0, ← hmap, hkp] at he0
      cases he0
      -- the turn for `k` serialised `p`
      unfold serializeField at hturn
      rw [SameValue_struct.1 hv] at hturn
      obtain ⟨r2, hitem, -⟩ := bind_eq_ok.1 hturn
      obtain ⟨r3, hrec, -⟩ := bind_eq_ok.1 hitem
      exact ih extra' acc.1 p r3 htemp.inv htemp.stored hkeep' (struct_of_edge h0 hedge) hrec

/-- The search for aliases has no recursion that could run out. -/
theorem found_error {st : State} {S : Addr} {e : Fault}
    (h : rpcStructFoundDuplicates E st S = .error e) : e ≠ .outOfFuel := by
  unfold rpcStructFoundDuplicates at h
  split at h
  · cases h
    nofun
  · rename_i s hs
    cases hloop : (E.order st S s.map.keys).foldlM (foundStep E st s) ⟨0, 16, [], ∅⟩ with
    | ok fs =>
      rw [hloop] at h
      cases h
    | error e' =>
      rw [hloop] at h
      cases h
      obtain ⟨as, k, bs, fs, -, -, hturn⟩ := foldlM_error hloop
      unfold foundStep at hturn
      split at hturn
      · cases hturn
      · split at hturn
        · cases hturn
        · split at hturn
          · cases hturn
          · split at hturn
            · cases hturn
            · cases hturn
              nofun

/-- An element runs out only in a nested struct. -/
theorem serializeElement_error {rec : State → Addr → Except Fault (State × Json)} {st : State}
    {e : RpcTypeT} (h : serializeElement utf8 rec st e = .error .outOfFuel) :
    ∃ p, e = .struct p ∧ rec st p = .error .outOfFuel := by
  cases e with
  | struct p =>
    rcases bind_eq_error.1 h with h | ⟨r, -, h⟩
    · exact ⟨p, rfl, h⟩
    · cases h
  | function p =>
    simp only [serializeElement] at h
    split at h <;> cases h
  | sizedbuf p =>
    simp only [serializeElement] at h
    split at h <;> cases h
  | _ => cases h

/-- Within the nesting, the bound is enough. -/
theorem serialize_enough (h0 : Inv off extra0 ∅ ∅ st0) (hst0 : Stored st0)
    (hoff : ∀ p ∈ off, ∃ x, st0.heap.lookup p = some x) (n : Nat) :
    ∀ (extra : Addr → Nat) (st : State) (S : Addr), Inv off extra ∅ ∅ st → Stored st →
      Keeps ∅ st0 st → (∃ s, st0.struct? S = some s) → DepthLE st0.Edge n S →
      rpcStructSerialize E utf8 n st S ≠ .error .outOfFuel := by
  induction n with
  | zero =>
    intro extra st S _ _ _ _ hdeep
    cases hdeep
  | succ n ih =>
    intro extra st S hinv hst hkeep hs hdeep hfuel
    obtain ⟨s0, hs0⟩ := hs
    obtain ⟨hdeep⟩ := hdeep
    obtain ⟨s, hs, -, hmap⟩ := hkeep.struct (Set.notMem_empty S) hs0
    obtain ⟨st1, d, -, -, hfail, hgo⟩ := serialize_prepared E utf8 hinv hst (fun p hp => by
      obtain ⟨x, hx⟩ := hoff p hp
      obtain ⟨x', hx', -⟩ := hkeep p x (Set.notMem_empty p) hx
      exact ⟨x', hx'⟩) hs n
    cases hdups : rpcStructFoundDuplicates E st1 S with
    | error e =>
      rw [hfail e hdups] at hfuel
      cases hfuel
      exact found_error hdups rfl
    | ok dups =>
      obtain ⟨st3, keys, hp, hrun⟩ := hgo dups hdups
      rw [hrun] at hfuel
      cases hloop : keys.foldlM (serializeField utf8 (rpcStructSerialize E utf8 n) d) (st3, []) with
      | ok r1 =>
        -- the copy is released without a fault
        rw [← List.append_nil keys] at hp
        obtain ⟨extra', htemp, -⟩ := hp.before h0 hst0 hoff hkeep hs0 hmap hloop
        obtain ⟨st5, hfree, -⟩ := htemp.free E
        rw [hloop] at hfuel
        simp [serializeRoot, hfree, bind, Except.bind] at hfuel
      | error e =>
        rw [hloop] at hfuel
        cases hfuel
        obtain ⟨as, k, bs, acc, hkeys, has, hturn⟩ := foldlM_error hloop
        subst hkeys
        obtain ⟨extra', htemp, hkeep', hnext⟩ := hp.before h0 hst0 hoff hkeep hs0 hmap has
        obtain ⟨e0, he0, hv⟩ := hnext k List.mem_cons_self
        have hitem : serializeElement utf8 (rpcStructSerialize E utf8 n) acc.1
            (rpcStructGetInternal acc.1 d k) = .error .outOfFuel := by
          rcases bind_eq_error.1 hturn with hitem | ⟨r, -, hr⟩
          · exact hitem
          · cases hr
        obtain ⟨p, hget, hrec⟩ := serializeElement_error hitem
        rw [hget] at hv
        have hedge : st0.Edge S p := by
          refine ⟨k, he0.trans ?_⟩
          cases e0 <;> cases hv
          rfl
        exact ih extra' acc.1 p htemp.inv htemp.stored hkeep' (struct_of_edge h0 hedge)
          (hdeep p hedge) hrec

end Serialize

/-! ## The traversals -/

section Traversals
variable {args : ArgOrder} {st : State} {S : Addr} {s : RpcStruct}

/-- The hash. -/
theorem hash_stops_iff (E : Env) (mem : Memory) (h : (fullApi args).Reachable st)
    (hs : st.struct? S = some s) :
    (∃ n, rpcStructHash E mem n st S ≠ .error .outOfFuel) ↔ Acyclic st.Edge S := by
  rw [Nesting.acyclic_iff_depthLE (mem_addrs_of_edge st)]
  exact exists_congr fun n => (hash_stops E mem (fullApi_inv h).wf n S s hs).iff

/-- Serialisation ends where no cycle is reached. -/
theorem serialize_stops (E : Env) (utf8 : CStr → Bool) (h : (fullApi args).Reachable st)
    (hs : st.struct? S = some s) (hacyclic : Acyclic st.Edge S) :
    ∃ n, rpcStructSerialize E utf8 n st S ≠ .error .outOfFuel := by
  have hwf := (fullApi_inv h).wf
  obtain ⟨n, hd⟩ := (Nesting.acyclic_iff_depthLE (mem_addrs_of_edge st)).1 hacyclic
  exact ⟨n, serialize_enough hwf.inv hwf.stored (fun p hp => absurd hp (Finset.notMem_empty p))
    n _ st S hwf.inv hwf.stored (.refl ∅ st) ⟨s, hs⟩ hd⟩

/-- And where it returns a document, none was. -/
theorem serialize_acyclic {E : Env} {utf8 : CStr → Bool} (h : (fullApi args).Reachable st)
    (hs : st.struct? S = some s) {n : Nat} {r : State × Json}
    (hok : rpcStructSerialize E utf8 n st S = .ok r) : Acyclic st.Edge S := by
  have hwf := (fullApi_inv h).wf
  exact (Nesting.acyclic_iff_depthLE (mem_addrs_of_edge st)).2 ⟨n, serialize_depth hwf.inv
    hwf.stored (fun p hp => absurd hp (Finset.notMem_empty p)) n _ st S r hwf.inv hwf.stored
    (.refl ∅ st) ⟨s, hs⟩ hok⟩

end Traversals

/-- Deep copy, hash and serialisation of a struct end exactly if no struct they reach
contains itself. -/
theorem traversals_stop_iff {args : ArgOrder} {st : State} (h : (fullApi args).Reachable st)
    (E : Env) (mem : Memory) (utf8 : CStr → Bool) {S : Addr} {s : RpcStruct}
    (hs : st.struct? S = some s) :
    ((∃ n, rpcStructDeepCopy E args n st S ≠ .error .outOfFuel) ↔ Acyclic st.Edge S) ∧
    ((∃ n, rpcStructHash E mem n st S ≠ .error .outOfFuel) ↔ Acyclic st.Edge S) ∧
    (Acyclic st.Edge S → ∃ n, rpcStructSerialize E utf8 n st S ≠ .error .outOfFuel) ∧
    ((∃ n r, rpcStructSerialize E utf8 n st S = .ok r) → Acyclic st.Edge S) := by
  refine ⟨deepCopy_stops_iff E h hs, hash_stops_iff E mem h hs, serialize_stops E utf8 h hs,
    fun hok => ?_⟩
  obtain ⟨n, r, hok⟩ := hok
  exact serialize_acyclic h hs hok

/-- A struct in a struct. -/
theorem traversals_of_nested_stop : ∃ st, (fullApi .getbufFirst).Reachable st ∧
    st.held 1 [107] = some 2 ∧
    (∃ n, rpcStructDeepCopy .bump .getbufFirst n st 1 ≠ .error .outOfFuel) ∧
    (∃ n, rpcStructHash .bump .spaced n st 1 ≠ .error .outOfFuel) ∧
    ∃ n, rpcStructSerialize .bump (fun _ => true) n st 1 ≠ .error .outOfFuel := by
  obtain ⟨st, hb⟩ : ∃ st, build .bump .empty [.structCreate, .structCreate,
    .set 1 [107] (.struct 2)] = some st := ⟨_, rfl⟩
  have h : (fullApi .getbufFirst).Reachable st := build_full (.init rfl) hb
  have hs : ∃ s, st.struct? 1 = some s := by
    cases hb
    exact ⟨_, rfl⟩
  obtain ⟨s, hs⟩ := hs
  have hstop := traversals_stop_iff h .bump .spaced (fun _ => true) hs
  have hcopy : rpcStructDeepCopy .bump .getbufFirst 2 st 1 ≠ .error .outOfFuel := by
    cases hb
    decide
  have hacyclic : Acyclic st.Edge 1 := hstop.1.1 ⟨2, hcopy⟩
  exact ⟨st, h, by cases hb; rfl, hstop.1.2 hacyclic, hstop.2.1.2 hacyclic, hstop.2.2.1 hacyclic⟩

/-- A struct that holds itself. -/
theorem traversals_of_itself_endless : ∃ st, (fullApi .getbufFirst).Reachable st ∧
    st.held 1 [107] = some 1 ∧
    (∀ n, rpcStructDeepCopy .bump .getbufFirst n st 1 = .error .outOfFuel) ∧
    (∀ n, rpcStructHash .bump .spaced n st 1 = .error .outOfFuel) ∧
    ∀ n r, rpcStructSerialize .bump (fun _ => true) n st 1 ≠ .ok r := by
  obtain ⟨st, hb⟩ : ∃ st, build .bump .empty [.structCreate, .set 1 [107] (.struct 1)] = some st :=
    ⟨_, rfl⟩
  have h : (fullApi .getbufFirst).Reachable st := build_full (.init rfl) hb
  have hs : ∃ s, st.struct? 1 = some s := by
    cases hb
    exact ⟨_, rfl⟩
  obtain ⟨s, hs⟩ := hs
  have hedge : st.Edge 1 1 := by
    cases hb
    exact ⟨[107], rfl⟩
  have hcyclic : ¬ Acyclic st.Edge 1 := fun hacyclic =>
    hacyclic 1 .refl (.single hedge)
  refine ⟨st, h, by cases hb; rfl, fun n => ?_, fun n => ?_, fun n r hok => ?_⟩
  · by_contra hne
    exact hcyclic ((deepCopy_stops_iff .bump h hs).1 ⟨n, hne⟩)
  · by_contra hne
    exact hcyclic ((hash_stops_iff .bump .spaced h hs).1 ⟨n, hne⟩)
  · exact hcyclic (serialize_acyclic h hs hok)

end FfiRpc
