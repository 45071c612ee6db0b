import FfiRpc.Wire.Receive
import FfiRpc.Wire.Send

/-!
# Sending a struct

`serialize_roundtrip`: an acyclic struct that a document can carry is written,
and whoever reads the document, the sender itself or any other process, builds
a struct with the same content (`SameItem`). Both directions speak of one
relation between elements and documents: `serialize_spec` establishes `RepItem`
on the sender's side, `deserialize_spec` on the receiver's, and `RepItem.copied`
compares the two.

Beyond what the sender's structs must satisfy (`Portable`), the search for
aliases must return; `found_spec` says that it then returns the alias groups,
and `found_of_small` that it does on structs with at most 16 keys.
-/
namespace FfiRpc

open State

/-! ## Documents that serialisation writes -/

theorem distinctFields_of {fs : List (CStr × Json)} (h : ∀ f ∈ fs, f.2.Distinct) :
    Json.DistinctFields fs := by
  induction fs with
  | nil => trivial
  | cons f fs ih =>
    exact ⟨h f List.mem_cons_self, ih fun g hg => h g (List.mem_cons_of_mem _ hg)⟩

theorem distinctItems_of {l : List Json} (h : ∀ j ∈ l, j.Distinct) : Json.DistinctItems l := by
  induction l with
  | nil => trivial
  | cons j l ih =>
    exact ⟨h j List.mem_cons_self, ih fun i hi => h i (List.mem_cons_of_mem _ hi)⟩

/-- An array of integers. -/
theorem distinct_ints {α : Type} (l : List α) (f : α → BitVec 64) :
    (Json.arr (l.map fun c => .int (f c))).Distinct := by
  refine distinctItems_of fun j hj => ?_
  obtain ⟨c, -, rfl⟩ := List.mem_map.1 hj
  trivial

section
variable {st : State} {A : Set Addr} {e : RpcTypeT} {j : Json}

theorem RepItem.distinct {dec : Prop} (h : RepItem st A dec e j) : j.Distinct := by
  induction h with
  | number => trivial
  | real => trivial
  | string => trivial
  | sizedbuf =>
    have hnd : [ascii "type", ascii "serialised"].Nodup := by decide +kernel
    exact ⟨hnd, trivial, distinct_ints _ _, trivial⟩
  | @function p f =>
    have hnd2 : [ascii "type", ascii "return_type"].Nodup := by decide +kernel
    have hnd3 : [ascii "type", ascii "return_type", ascii "prototype"].Nodup := by decide +kernel
    obtain ⟨proto, r, a⟩ := f
    rcases proto with _ | _ | ⟨x, l⟩
    · exact ⟨hnd2, trivial, trivial, trivial⟩
    · exact ⟨hnd2, trivial, trivial, trivial⟩
    · exact ⟨hnd3, trivial, trivial, distinct_ints (x :: l) _, trivial⟩
  | @struct S s id ser dup _ _ _ _ hf _ ih =>
    have hnd : [ascii "ID", ascii "type", ascii "serialised", ascii "duplicates"].Nodup := by
      decide +kernel
    refine ⟨hnd, trivial, trivial, ⟨hf.serNodup, distinctFields_of fun f hfm => ?_⟩,
      ⟨hf.dupNodup, distinctFields_of fun f hfm => ?_⟩, trivial⟩
    · have hlook := Json.lookup_of_mem hf.serNodup (k := f.1) (j := f.2) hfm
      obtain ⟨e, he⟩ := hf.key f.1 f.2 hlook
      exact ih f.1 f.2 e hlook he
    · have hlook := Json.lookup_of_mem hf.dupNodup (k := f.1) (j := f.2) hfm
      obtain ⟨-, orig, -, -, -, hd, -⟩ := hf.aliased f.1 f.2 hlook
      rw [hd]
      trivial

theorem RepItem.safe {dec : Prop} (h : RepItem st A dec e j) : SafeItem j := by
  induction h with
  | number => exact .int
  | real => exact .real
  | string => exact .str
  | sizedbuf =>
    refine .obj (typeName_sizedbuf _) fun hc => ?_
    exact absurd hc (by decide +kernel)
  | function =>
    refine .obj (typeName_function _) fun hc => ?_
    exact absurd hc (by decide +kernel)
  | @struct S s id ser dup _ _ _ hlen hf _ ih =>
    refine .obj (typeName_struct id ser dup) fun _ => .mk (fun v hv => ?_) (fun v hv => ?_)
      fun data _ hdata f hfm => ?_
    · cases hv
      exact ⟨id, rfl, by omega⟩
    · cases hv
      exact ⟨_, rfl⟩
    · cases hdata
      have hlook := Json.lookup_of_mem hf.serNodup (k := f.1) (j := f.2) hfm
      obtain ⟨e, he⟩ := hf.key f.1 f.2 hlook
      exact ih f.1 f.2 e hlook he

/-- What the receiver builds from the document of a struct. -/
theorem RepItem.received {S : Addr} (h : RepItem st A False (.struct S) j) (E : Env) {r : State}
    (hr : Counted r) : ∃ r' new, rpcStructDeserialize E r (some j) = .ok (r', new) ∧
      CopyItem st r' (.struct S) (.struct new) ∧ Keeps ∅ r r' := by
  have hty : j.typeName = some (ascii "RPC_struct") := by
    cases h with
    | struct => exact typeName_struct ..
  have hsafe : SafeStruct j := by
    cases h.safe with
    | obj ht hs =>
      rw [ht] at hty
      cases hty
      exact hs rfl
    | _ => cases hty
  obtain ⟨⟨r', new⟩, hok, hparsed⟩ := (deserialize_spec E hr ⟨j, h.distinct⟩).iff.2 hsafe
  obtain ⟨-, hrep⟩ := hparsed.content ⟨st, A, _, h⟩ hty
  exact ⟨r', new, hok, h.copied hrep, hparsed.keeps⟩

end

/-- Doubles are not widened. -/
theorem CopyItem.same {st st' : State} {e e' : RpcTypeT} (h : CopyItem st st' e e')
    (hreal : ∀ raw, e = .real raw → raw.length = 8)
    (hnested : ∀ S, e = .struct S → ∀ T, st.Nested S T → ∀ k raw,
      st.entry T k = some (.real raw) → raw.length = 8) : SameItem st st' e e' := by
  induction h with
  | number h => exact .number h
  | real h =>
    exact .real (serializeReal_double (hreal _ rfl) h).symm
  | string => exact .string
  | sizedbuf hb hb' => exact .sizedbuf hb hb'
  | function hf hf' hret hproto hptr => exact .function hf hf' hret hproto hptr
  | @struct S T s t hs ht hid hkeys _ hshared ih =>
    have hentry := entry_of_struct hs
    refine .struct hs ht hid hkeys (fun k e e' he he' => ?_) hshared
    refine ih k e e' he he' (fun raw hr => ?_) fun p hp U hU => ?_
    · exact hnested S rfl S .refl k raw (by rw [hentry, he, hr])
    · exact hnested S rfl U (.head ⟨k, by rw [hentry, he, hp]⟩ hU)

/-! ## The bound of the recursion -/

section
variable {E : Env} {utf8 : CStr → Bool} {st : State} {S : Addr}

theorem serializeElement_mono {f g : State → Addr → Except Fault (State × Json)}
    (h : ∀ st p r, f st p = .ok r → g st p = .ok r) (st : State) (e : RpcTypeT)
    (r : State × Option Json) (hok : serializeElement utf8 f st e = .ok r) :
    serializeElement utf8 g st e = .ok r := by
  cases e with
  | struct p =>
    obtain ⟨r1, h1, hrest⟩ := bind_eq_ok.1 hok
    exact bind_eq_ok.2 ⟨r1, h st p r1 h1, hrest⟩
  | _ => exact hok

theorem serialize_succ (n : Nat) (st : State) (S : Addr) (r : State × Json)
    (hok : rpcStructSerialize E utf8 n st S = .ok r) :
    rpcStructSerialize E utf8 (n + 1) st S = .ok r := by
  induction n generalizing st S r with
  | zero => cases hok
  | succ n ih =>
    unfold rpcStructSerialize at hok ⊢
    obtain ⟨r1, h1, hok⟩ := bind_eq_ok.1 hok
    obtain ⟨dups, h2, hok⟩ := bind_eq_ok.1 hok
    obtain ⟨st2, h3, hok⟩ := bind_eq_ok.1 hok
    obtain ⟨st3, h4, hok⟩ := bind_eq_ok.1 hok
    obtain ⟨r4, h5, hok⟩ := bind_eq_ok.1 hok
    refine bind_eq_ok.2 ⟨r1, h1, bind_eq_ok.2 ⟨dups, h2, bind_eq_ok.2 ⟨st2, h3,
      bind_eq_ok.2 ⟨st3, h4, bind_eq_ok.2 ⟨r4, ?_, hok⟩⟩⟩⟩⟩
    refine foldlM_congr_ok (fun acc key acc' hstep => ?_) h5
    obtain ⟨r5, h6, hrest⟩ := bind_eq_ok.1 hstep
    exact bind_eq_ok.2 ⟨r5, serializeElement_mono ih _ _ _ h6, hrest⟩

theorem serialize_mono {n m : Nat} (hnm : n ≤ m) {r : State × Json}
    (hok : rpcStructSerialize E utf8 n st S = .ok r) :
    rpcStructSerialize E utf8 m st S = .ok r := by
  induction hnm with
  | refl => exact hok
  | step _ ih => exact serialize_succ _ st S r ih

/-- The result does not depend on the bound. -/
theorem Serializes.unique {st1 st2 : State} {j1 j2 : Json} (h1 : Serializes E utf8 st S st1 j1)
    (h2 : Serializes E utf8 st S st2 j2) : st2 = st1 ∧ j2 = j1 := by
  obtain ⟨n, hn⟩ := h1
  obtain ⟨m, hm⟩ := h2
  have h := serialize_mono (Nat.le_max_left n m) hn
  rw [serialize_mono (Nat.le_max_right n m) hm] at h
  cases h
  exact ⟨rfl, rfl⟩

/-! ## Out and back -/

/-- The search returns on structs with at most 16 keys. -/
theorem found_of_small {T : Addr} {s : RpcStruct} (hs : st.struct? T = some s)
    (hlen : s.map.keys.length ≤ 16) : ∃ dups, rpcStructFoundDuplicates E st T = .ok dups := by
  rcases found_spec E hs with h | h
  · obtain ⟨dups, hok, -⟩ := h
    exact ⟨dups, hok⟩
  · omega

/-- So it does later. -/
theorem found_of_keeps {st' : State} {T : Addr} {s : RpcStruct} (hs : st.struct? T = some s)
    (hlen : s.map.keys.length ≤ 16) (hkeep : Keeps ∅ st st') :
    ∃ dups, rpcStructFoundDuplicates E st' T = .ok dups := by
  obtain ⟨s', hs', -, hmap⟩ := hkeep.struct (Set.notMem_empty T) hs
  have hsub : s'.map.keys ⊆ s.map.keys := by
    intro k hk
    obtain ⟨e, he⟩ := Table.mem_keys_iff.1 hk
    exact Table.mem_keys_iff.2 ⟨e, by rw [← hmap, he]⟩
  exact found_of_small hs'
    ((List.subperm_of_subset (AList.keys_nodup s'.map) hsub).length_le.trans hlen)

/-- Written by any process and read by the same or any other. -/
theorem serialize_roundtrip (h : api.Reachable st) (hs : ∃ s, st.struct? S = some s)
    (hacyclic : Nesting.Acyclic st.Edge S) (hport : Portable utf8 st S)
    (hfound : ∀ T, st.Nested S T → ∀ st', Keeps ∅ st st' →
      ∃ dups, rpcStructFoundDuplicates E st' T = .ok dups) :
    ∃ st' j, Serializes E utf8 st S st' j ∧
      ∀ (E' : Env) (r : State), api.Reachable r ∨ r = st' → ∃ r' new,
        rpcStructDeserialize E' r (some j) = .ok (r', new) ∧
        SameItem st r' (.struct S) (.struct new) := by
  obtain ⟨n, hn⟩ := hacyclic.depthLE (mem_addrs_of_edge st)
  have hwf := api_wf h
  rcases serialize_spec E utf8 False hwf.inv hwf.stored nofun n _ st S hwf.inv
    hwf.stored (.refl ∅ st) hs (fun _ => ⟨hn, hfound⟩) with hsent | herr
  · obtain ⟨⟨st', j⟩, hok, extra', hinv', -, -, -, -, hrep⟩ := hsent
    refine ⟨st', j, ⟨n, hok⟩, fun E' r hr => ?_⟩
    have hcounted : Counted r := by
      rcases hr with hr | hr
      · exact (api_wf hr).inv.counted
      · rw [hr]
        exact hinv'.counted
    obtain ⟨r', new, hnew, hcopied, -⟩ := (hrep hport.expressible).received E' hcounted
    refine ⟨r', new, hnew, hcopied.same (fun raw hc => by cases hc) fun T hT U hU k raw hk => ?_⟩
    cases hT
    exact ((hport.nested U hU).real k raw hk).1
  · exact herr.1.elim

end

/-- A struct with a text, a buffer under two keys, and a struct with a real and a number. -/
def nestedOps : List Op :=
  [.structCreate, .structCreate, .sizedbufCreate [7, 0], .set 1 [97] (.string 1 [104, 105]),
    .set 1 [98] (.sizedbuf 3), .set 1 [99] (.sizedbuf 3), .set 1 [100] (.struct 2),
    .set 2 [101] (.real (List.replicate 8 0)), .set 2 [102] (.number [5])]

/-- The entries they make. -/
def nestedEntries : List (Addr × CStr × RpcTypeT) :=
  [(2, [102], .number [5]), (2, [101], .real (List.replicate 8 0)), (1, [100], .struct 2),
    (1, [99], .sizedbuf 3), (1, [98], .sizedbuf 3), (1, [97], .string 4 [104, 105])]

theorem nestedOps_built : ∃ st, api.Reachable st ∧
    (∀ S k e, st.entry S k = some e ↔ (S, k, e) ∈ nestedEntries) ∧
    ∀ T, T = 1 ∨ T = 2 → ∃ s, st.struct? T = some s ∧ s.ID = List.replicate 64 97 ++ [0] ∧
      s.map.keys.length ≤ 16 := by
  have hfacts : ((build .bump .empty nestedOps).map fun st =>
      decide (st.pairs = nestedEntries.map (fun f => (f.1, f.2.1)) ∧
        (∀ f ∈ nestedEntries, st.entry f.1 f.2.1 = some f.2.2) ∧
        ∀ T ∈ [1, 2], (st.struct? T).map (fun s => (s.ID, decide (s.map.keys.length ≤ 16))) =
          some (List.replicate 64 97 ++ [0], true))) = some true := by
    decide +kernel
  obtain ⟨st, hbuilt, hfacts⟩ := Option.map_eq_some_iff.1 hfacts
  obtain ⟨hpairs, hentries, hstructs⟩ := of_decide_eq_true hfacts
  refine ⟨st, (build_reachable (.init rfl) hbuilt).of_restrict, fun S k e => ⟨fun hk => ?_, fun hf => ?_⟩,
    fun T hT => ?_⟩
  · have hmem := mem_pairs hk
    rw [hpairs] at hmem
    obtain ⟨f, hf, hfeq⟩ := List.mem_map.1 hmem
    obtain ⟨rfl, rfl⟩ := Prod.mk.inj hfeq
    rw [hentries f hf] at hk
    cases hk
    exact hf
  · exact hentries _ hf
  · obtain ⟨s, hs, hsf⟩ := Option.map_eq_some_iff.1 (hstructs T (by simpa using hT))
    obtain ⟨hid, hlen⟩ := Prod.mk.inj hsf
    exact ⟨s, hs, hid, of_decide_eq_true hlen⟩

/-- The receiver has the buffer under both keys. -/
theorem serialize_roundtrip_nested : ∃ st st' j, st.entry 1 [97] = some (.string 4 [104, 105]) ∧
    st.entry 1 [100] = some (.struct 2) ∧ st.entry 2 [101] = some (.real (List.replicate 8 0)) ∧
    st.entry 1 [98] = some (.sizedbuf 3) ∧ st.entry 1 [99] = some (.sizedbuf 3) ∧
    Serializes .bump (fun text => text.all (· < 128)) st 1 st' j ∧
    ∃ r' new q, rpcStructDeserialize .bump st' (some j) = .ok (r', new) ∧
      SameItem st r' (.struct 1) (.struct new) ∧
      r'.entry new [98] = some (.sizedbuf q) ∧ r'.entry new [99] = some (.sizedbuf q) := by
  obtain ⟨st, hreach, hentry, hstruct⟩ := nestedOps_built
  have hedge : ∀ S p, st.Edge S p → S = 1 ∧ p = 2 := by
    intro S p hp
    obtain ⟨k, hk⟩ := hp
    have hmem := (hentry S k _).1 hk
    simp only [nestedEntries, List.mem_cons, Prod.mk.injEq, reduceCtorEq, and_false, false_or,
      or_false, List.not_mem_nil] at hmem
    exact ⟨hmem.1, RpcTypeT.struct.inj hmem.2.2⟩
  have hnested : ∀ T, st.Nested 1 T → T = 1 ∨ T = 2 := by
    intro T hT
    rcases hT.cases_tail with rfl | ⟨U, -, hp⟩
    · exact .inl rfl
    · exact .inr (hedge U T hp).2
  have hport : Portable (fun text => text.all (· < 128)) st 1 := by
    have hkeys : ∀ f ∈ nestedEntries, f.2.1.all (· < 128) = true := by decide
    refine ⟨fun text htext => List.all_eq_true.2 fun b hb => decide_eq_true (htext b hb), fun T hT => ?_⟩
    obtain ⟨s, hs, hid, -⟩ := hstruct T (hnested T hT)
    refine ⟨fun s' hs' => ⟨List.replicate 64 97, ?_, rfl, fun b hb => ?_⟩,
      fun k e hk => hkeys _ ((hentry T k e).1 hk), fun k q t hk => ?_, fun k raw hk => ?_⟩
    · cases hs.symm.trans hs'
      exact hid
    · rw [List.eq_of_mem_replicate hb]
      decide
    · have hmem := (hentry T k _).1 hk
      simp only [nestedEntries, List.mem_cons, Prod.mk.injEq, reduceCtorEq, and_false, false_or,
        or_false, List.not_mem_nil] at hmem
      rw [(RpcTypeT.string.inj hmem.2.2).2]
      decide
    · have hmem := (hentry T k _).1 hk
      simp only [nestedEntries, List.mem_cons, Prod.mk.injEq, reduceCtorEq, and_false, false_or,
        or_false, List.not_mem_nil] at hmem
      rw [RpcTypeT.real.inj hmem.2.2]
      decide
  obtain ⟨s, hs, -⟩ := hstruct 1 (.inl rfl)
  obtain ⟨st', j, hser, hback⟩ := serialize_roundtrip hreach ⟨s, hs⟩
    (fun T hT hloop => by
      obtain ⟨p, hp, -⟩ := Relation.TransGen.head'_iff.1 hloop
      obtain ⟨q, -, hq⟩ := Relation.TransGen.tail'_iff.1 hloop
      have h1 := (hedge T p hp).1
      rw [(hedge q T hq).2] at h1
      cases h1)
    hport
    (fun T hT st' hkeep => by
      obtain ⟨s, hs, -, hlen⟩ := hstruct T (hnested T hT)
      exact found_of_keeps (E := .bump) hs hlen hkeep)
  obtain ⟨r', new, hok, hsame⟩ := hback .bump st' (.inr rfl)
  -- each key has a buffer at the receiver, and it is one and the same
  have hbuf : ∀ k, st.entry 1 k = some (.sizedbuf 3) →
      ∃ q, r'.entry new k = some (.sizedbuf q) := by
    intro k hk
    obtain ⟨e', he', hitem⟩ := hsame.entry hk nofun
    cases hitem with
    | sizedbuf => exact ⟨_, he'⟩
  have hb : st.entry 1 [98] = some (.sizedbuf 3) := (hentry _ _ _).2 (by decide)
  have hc : st.entry 1 [99] = some (.sizedbuf 3) := (hentry _ _ _).2 (by decide)
  obtain ⟨q, hq⟩ := hbuf _ hb
  obtain ⟨q', hq'⟩ := hbuf _ hc
  have hone : q = q' := (hsame.shared (held_eq_some.2 ⟨_, hb, rfl⟩) (held_eq_some.2 ⟨_, hc, rfl⟩)
    (held_eq_some.2 ⟨_, hq, rfl⟩) (held_eq_some.2 ⟨_, hq', rfl⟩)).1 rfl
  exact ⟨st, st', j, (hentry _ _ _).2 (by decide), (hentry _ _ _).2 (by decide),
    (hentry _ _ _).2 (by decide), hb, hc, hser, r', new, q, hok, hsame, hq, hone ▸ hq'⟩

end FfiRpc
