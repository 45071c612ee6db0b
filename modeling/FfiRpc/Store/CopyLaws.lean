import FfiRpc.Store.Graph
import FfiRpc.Store.Temp

/-!
# What a shallow copy owes

`CopyLaw` is the contract of `rpc_struct_copy`: the copy starts with the
original's content, freeing it right away puts the tracker back, and an object
shared by the two alone lives exactly as long as one of them holds it.

The content is right for every struct (`copy_content`), the bookkeeping only for
one that holds no struct, sizedbuf or function: each of those keeps a reference
that no removal takes back (`copy_spec`), so neither the free of the copy nor
the last removal returns its count to what the entries justify
(`copy_law_iff`). For a struct without such entries neither copy nor free
touches the tracker (`copy_flat`, `free_flat`).
-/
namespace FfiRpc

open State

/-- Equal records, whatever the objects. -/
def SameTracker (st st' : State) : Prop :=
  ∀ p, (st.tracker.lookup p = none ↔ st'.tracker.lookup p = none) ∧
    ∀ r r', st.tracker.lookup p = some r → st'.tracker.lookup p = some r' → r.Same r'

theorem SameTracker.of_eq {st st' : State} (h : st'.tracker = st.tracker) : SameTracker st st' := by
  intro p
  rw [h]
  refine ⟨Iff.rfl, fun r r' hr hr' => ?_⟩
  rw [hr] at hr'
  cases hr'
  exact ⟨rfl, rfl, fun _ => List.Perm.refl _⟩

/-- Removals and frees on the original and its copy. -/
def Op.Later (o c : Addr) : Op → Prop
  | .remove S _ => S = o ∨ S = c
  | .free t x => t = .struct ∧ (x = o ∨ x = c)
  | _ => False

/-- `c` has the entries of `o`, with string blocks of its own. -/
def CopyContent (st : State) (o c : Addr) (st' : State) : Prop :=
  ∀ k, (st.entry o k = none → st'.entry c k = none) ∧
    ∀ e, st.entry o k = some e → ∃ e', st'.entry c k = some e' ∧ e.SameValue e' ∧
      ∀ a t S k' t', e' = .string a t → st'.entry S k' = some (.string a t') → S = c ∧ k' = k

structure CopyLaw (st : State) (o c : Addr) (st' : State) : Prop where
  content : CopyContent st o c st'
  restore : ∀ E : Env, ∃ st'', rpcFree E .struct st' c = .ok st'' ∧ SameTracker st st''
  release : ∀ p k, st.held o k = some p → p ≠ o → (∀ S k', st.held S k' = some p → S = o) →
    ∀ as st'', api.Run st' as st'' → (∀ a ∈ as, a.2.Later o c) →
      ((∃ x, st''.heap.lookup p = some x) ↔ ∃ S k', (S = o ∨ S = c) ∧ st''.held S k' = some p)

section
variable {st : State}

theorem copy_content {o c : Addr} {s : RpcStruct} {st' : State}
    (hs : st.struct? o = some s) (hst' : Stored st') (h : Copied s o c st st') :
    CopyContent st o c st' := by
  obtain ⟨s', hs', -, hno, hall⟩ := h.map
  intro k
  rw [entry_of_struct hs, entry_of_struct hs']
  refine ⟨hno k, fun e he => ?_⟩
  obtain ⟨e', he', hsv⟩ := hall k e he
  refine ⟨e', he', hsv, fun a t S k' t' hstr h2 => ?_⟩
  exact hst'.once c k a t S k' t' (by rw [entry_of_struct hs', he', hstr]) h2

/-! ## Structs that hold no tracked object -/

theorem remove_flat {del : State → Addr → Except Fault State} {S : Addr} {k : CStr}
    {st' : State} (hflat : ∀ k, st.held S k = none)
    (hok : Prod.fst <$> rpcStructRemoveBy del st S k = .ok st') :
    st'.tracker = st.tracker ∧ (∃ s, st'.struct? S = some s) ∧ ∀ k, st'.held S k = none := by
  unfold rpcStructRemoveBy at hok
  cases hs : st.struct? S with
  | none => rw [hs] at hok; cases hok
  | some s =>
    simp only [hs] at hok
    cases hk : s.map.lookup k with
    | none => rw [hk] at hok; cases hok; exact ⟨rfl, ⟨s, hs⟩, hflat⟩
    | some e =>
      have ht : e.target = none := by
        have := hflat k
        simpa [held, entry_of_struct hs, hk] using this
      simp only [hk, untrackElementBy, ht, bind, Except.bind, dropEntry, hs] at hok
      cases hok
      refine ⟨rfl, ⟨_, by rw [struct?_setObj_struct, if_pos rfl]⟩, fun k' => ?_⟩
      rw [held_dropEntry hs]
      split
      · rfl
      · exact hflat k'

/-- Freeing an untracked struct that holds no tracked object leaves the tracker
alone. -/
theorem free_flat {E : Env} {S : Addr} {s : RpcStruct} {st' : State} (h0 : S ≠ 0)
    (hs : st.struct? S = some s) (hr : st.tracker.lookup S = none)
    (hflat : ∀ k, st.held S k = none) (hok : rpcFree E .struct st S = .ok st') :
    st'.tracker = st.tracker := by
  have hfree := rpcFree_untracked (E := E) (o := .struct s) h0 hr
  rw [show (Obj.struct s).type = .struct from rfl, hok] at hfree
  simp only [releaseBy, rpcStructFreeInternalBy] at hfree
  obtain ⟨st1, hloop, hrel⟩ := bind_eq_ok.1 hfree.symm
  simp only [rpcStructFreeInternalsBy, hs] at hloop
  have h1 := foldlM_ok (fun s => s.tracker = st.tracker ∧ ∀ k, s.held S k = none)
    (fun s k s' hI hok => by
      obtain ⟨htr, -, hfl⟩ := remove_flat hI.2 hok
      exact ⟨htr.trans hI.1, hfl⟩) _ st st1 ⟨rfl, hflat⟩ hloop
  unfold State.release at hrel
  split at hrel
  · split at hrel
    · cases hrel; exact h1.1
    · cases hrel
  · cases hrel

theorem setInternal_flat {E : Env} {S : Addr} {k : CStr} {e : RpcTypeT} {st' : State}
    (ht : e.target = none) (hok : Prod.fst <$> rpcStructSetInternal E st S k e = .ok st') :
    st'.tracker = st.tracker := by
  unfold rpcStructSetInternal at hok
  cases hs : st.struct? S with
  | none => rw [hs] at hok; cases hok
  | some s =>
    simp only [hs] at hok
    split at hok
    · cases hok; rfl
    · split at hok
      · cases hok; rfl
      · cases hok
        simp [trackElement, ht]

/-- Copying a struct that holds no tracked object leaves the tracker alone. -/
theorem copy_flat {E : Env} {o c : Addr} {st' : State} (hflat : ∀ k, st.held o k = none)
    (hok : rpcStructCopy E st o = .ok (st', c)) : st'.tracker = st.tracker := by
  unfold rpcStructCopy at hok
  cases hs : st.struct? o with
  | none => rw [hs] at hok; cases hok
  | some s =>
    have hnone : ∀ k e, s.map.lookup k = some e → e.target = none := by
      intro k e hk
      have := hflat k
      simpa [held, entry_of_struct hs, hk] using this
    simp only [hs, rpcStructCreate] at hok
    obtain ⟨st2, hid, hok⟩ := bind_eq_ok.1 hok
    obtain ⟨st3, hloop, hok⟩ := bind_eq_ok.1 hok
    obtain ⟨st4, hcopy, hok⟩ := bind_eq_ok.1 hok
    cases hok
    have h2 : st2.tracker = st.tracker := by
      unfold rpcStructIdSet at hid
      split at hid
      · cases hid
      · split at hid <;> cases hid
        rfl
    have h3 := foldlM_ok (fun s => s.tracker = st.tracker) (fun s1 k s' hI hok => by
      unfold copyElement at hok
      cases hk : s.map.lookup k with
      | none => rw [hk] at hok; cases hok; exact hI
      | some e =>
        simp only [hk] at hok
        rw [setInternal_flat (hnone k e hk) hok]
        simp [incrementElement, hnone k e hk, hI]) _ st2 st3 h2 hloop
    unfold setCopyof at hcopy
    split at hcopy
    · cases hcopy
    · cases hcopy; exact h3

/-! ## Freeing the copy at once -/

/-- Freeing the copy at once changes no reference. -/
theorem Copied.free {extra : Addr → Nat} {s : RpcStruct} {o c : Addr} {st' : State}
    (h : Copied s o c st st') (hs : st.struct? o = some s) (hinv : Inv ∅ extra ∅ ∅ st)
    (hinv' : Inv ∅ (fun p => extra p + s.refs p) ∅ ∅ st') (hst' : Stored st') (E : Env) :
    ∃ st'', rpcFree E .struct st' c = .ok st'' ∧ Inv ∅ (fun p => extra p + s.refs p) ∅ ∅ st'' ∧
      ∀ S k, st''.held S k = st.held S k := by
  obtain ⟨st'', hok, hinv'', -, hframe, hgone⟩ := (h.temp hs hinv hinv' hst' nofun).free E
  refine ⟨st'', hok, hinv'', fun S k => ?_⟩
  by_cases hS : S = c
  · subst hS
    have hdead : st.heap.lookup S = none := by
      cases hl : st.heap.lookup S with
      | none => rfl
      | some x => exact absurd (.inr (.inl ⟨x, hl⟩)) h.fresh
    simp [State.held, State.entry, struct?, hgone, hdead]
  · rw [hframe.held hS, h.held hs, if_neg hS]

/-- The contract holds exactly for structs that hold no struct, sizedbuf or
function. -/
theorem copy_law_iff (h : api.Reachable st) (E : Env) {o : Addr} {s : RpcStruct}
    (hs : st.struct? o = some s) :
    ∃ st' c, rpcStructCopy E st o = .ok (st', c) ∧ CopyContent st o c st' ∧
      (CopyLaw st o c st' ↔ ∀ k, st.held o k = none) := by
  obtain ⟨hinv, hst⟩ := api_wf h
  obtain ⟨st', c, hok, hinv', hst', hcopied⟩ := copy_spec E hinv hst hs
  refine ⟨st', c, hok, copy_content hs hst' hcopied, fun hlaw k => ?_, fun hflat => ?_⟩
  · -- a reference that freeing the copy does not take back
    cases hk : st.held o k with
    | none => rfl
    | some p =>
      exfalso
      obtain ⟨st'', hfree, hsame⟩ := hlaw.restore E
      obtain ⟨st2, hfree2, hinv2, hheld⟩ := hcopied.free hs hinv hinv' hst' E
      rw [hfree] at hfree2
      cases hfree2
      obtain ⟨r, x, hr, -, hrec⟩ := hinv.tracked_of_held (Set.notMem_empty p) hk
      cases hr'' : st''.tracker.lookup p with
      | none =>
        have := (hsame p).1.2 hr''
        rw [hr] at this; cases this
      | some r'' =>
        obtain ⟨-, x'', -, hrec''⟩ := hinv2.tracked p r'' hr''
        have hcount := hrec.count
        have hcount'' := hrec''.count
        rw [Finset.sdiff_empty, holders_congr hheld] at hcount''
        have heq := ((hsame p).2 r r'' hr hr'').refcount
        have hpos := (refs_pos_iff hs p).2 ⟨k, hk⟩
        omega
  · refine ⟨copy_content hs hst' hcopied, fun E' => ?_, fun p k hp => ?_⟩
    · obtain ⟨st'', hfree, -⟩ := hcopied.free hs hinv hinv' hst' E'
      refine ⟨st'', hfree, ?_⟩
      obtain ⟨s', hs', -⟩ := hcopied.map
      have hc0 : c ≠ 0 := fun h0 => hcopied.fresh (.inl h0)
      have hcflat : ∀ k, st'.held c k = none := fun k => by
        rw [hcopied.held hs, if_pos rfl, hflat]
      have hctr : st.tracker.lookup c = none := by
        cases hr : st.tracker.lookup c with
        | none => rfl
        | some r =>
          obtain ⟨-, x, hx, -⟩ := hinv.tracked c r hr
          exact absurd (.inr (.inl ⟨x, hx⟩)) hcopied.fresh
      have htr := copy_flat hflat hok
      have htr' := free_flat hc0 hs' (by rw [htr]; exact hctr) hcflat hfree
      exact .of_eq (htr'.trans htr)
    · rw [hflat k] at hp; cases hp

end

/-- A struct that holds a sizedbuf. -/
theorem exists_shared : ∃ st s, graphApi.Reachable st ∧ st.struct? 1 = some s ∧
    st.held 1 [107] = some 2 ∧ st.holders 2 = {(1, [107])} := by
  have h1 := graph_step .bump .structCreate (.init rfl) trivial trivial rfl
  have h2 := graph_step .bump (.sizedbufCreate [7]) h1 trivial trivial rfl
  have h3 := graph_step .bump (.set 1 [107] (.sizedbuf 2)) h2
    ⟨⟨_, rfl⟩, trivial, fun p hp _ => by cases hp; exact ⟨_, rfl, rfl⟩⟩ trivial rfl
  exact ⟨_, _, h3, rfl, rfl, rfl⟩

theorem copy_law_iff_shared : ∃ st st' c, st.held 1 [107] = some 2 ∧
    rpcStructCopy .bump st 1 = .ok (st', c) ∧ ¬ CopyLaw st 1 c st' := by
  obtain ⟨st, s, h, hs, hh, -⟩ := exists_shared
  obtain ⟨st', c, hok, -, hiff⟩ := copy_law_iff h.of_restrict .bump hs
  refine ⟨st, st', c, hh, hok, fun hlaw => ?_⟩
  have := hiff.1 hlaw [107]
  rw [hh] at this; cases this

/-- Both structs freed, nobody holds the sizedbuf, and it is still there. -/
theorem copy_leaks : ∃ st st' c, api.Reachable st ∧ rpcStructCopy .bump st 1 = .ok (st', c) ∧
    ¬ CopyLaw st 1 c st' := by
  have h1 := graph_step .bump .structCreate (.init rfl) trivial trivial rfl
  have h2 := graph_step .bump (.sizedbufCreate [7]) h1 trivial trivial rfl
  have h3 := graph_step .bump (.set 1 [107] (.sizedbuf 2)) h2
    ⟨⟨_, rfl⟩, trivial, fun p hp _ => by cases hp; exact ⟨_, rfl, rfl⟩⟩ trivial rfl
  refine ⟨_, _, 3, h3.of_restrict, rfl, fun hlaw => ?_⟩
  have hrun := (hlaw.release 2 [107] rfl (by decide) ?_
    [(.bump, .free .struct 1), (.bump, .free .struct 3)] _
    (.cons ⟨⟨_, rfl, rfl⟩, rfl⟩ (.cons ⟨⟨_, rfl, rfl⟩, rfl⟩ .nil)) ?_).1 ⟨_, rfl⟩
  · obtain ⟨S, k', hS, hh⟩ := hrun
    rcases hS with hS | hS <;> subst hS <;> cases hh
  · intro S k' hh
    have hm := mem_holders.2 hh
    rw [show State.holders _ 2 = {(1, [107])} from rfl, Finset.mem_singleton] at hm
    cases hm; rfl
  · intro a ha
    rcases List.mem_cons.1 ha with h | h
    · subst h; exact ⟨rfl, .inl rfl⟩
    · rw [List.mem_singleton] at h
      subst h; exact ⟨rfl, .inr rfl⟩

end FfiRpc
