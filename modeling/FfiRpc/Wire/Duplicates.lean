import FfiRpc.Store.Runs
import FfiRpc.Wire.Aliases

/-!
# When the search for aliases is right

`rpc_struct_found_duplicates` remembers for each object a pointer to its group, an
element of an array that grows by `realloc` when it is full: at 16 groups, 32, and so on.
When `realloc` moves the array, the pointers taken before are stale, and a key that holds
one of those objects is written through one.

`found_iff`: the result is an exact partition of the keys (`Partition`) exactly when no key
that comes after a moving growth holds an object from before it (`Undisturbed`).
`FoundSize` is the invariant that relates the groups found, the capacity and the block to
the keys visited.
-/
namespace FfiRpc

open State

section
variable (E : Env) (st : State) (s : RpcStruct)

/-- How many objects the keys hold. -/
def distinct (keys : List CStr) : Nat := (keys.filterMap s.holds).toFinset.card

/-- The key `m`, visited after `before`, holds an object not seen yet, the array is full,
and `realloc` moves it. -/
structure MovesAt (before : List CStr) (m : CStr) : Prop where
  new : ∃ q, s.holds m = some q ∧ ∀ k ∈ before, s.holds k ≠ some q
  full : ∃ n, distinct s before = 16 * 2 ^ n
  moves : E.moves st (distinct s before * 2) = true

/-- The pointer for `p` was taken before the array moved. -/
def Stale (before : List CStr) (p : Addr) : Prop :=
  ∃ first m rest, before = first ++ m :: rest ∧ MovesAt E st s first m ∧
    ∃ k ∈ first, s.holds k = some p

/-- No key that comes after a moving growth holds an object from before it. -/
def Undisturbed (keys : List CStr) : Prop :=
  ∀ before k after p, keys = before ++ k :: after → s.holds k = some p → ¬ Stale E st s before p

/-- One group for each object that the struct holds, with the object's type, and each key
of the object once. -/
structure Partition (dups : List DupInfo) : Prop where
  groups : AliasGroups s s.map.keys dups
  type : ∀ d ∈ dups, ∃ p o, s.holds d.originalName = some p ∧ st.heap.lookup p = some o ∧
    d.type = o.type

end

section
variable {E : Env} {st : State} {s : RpcStruct} {before : List CStr} {key : CStr}

theorem stale_snoc {p : Addr} : Stale E st s (before ++ [key]) p ↔
    Stale E st s before p ∨ MovesAt E st s before key ∧ ∃ k ∈ before, s.holds k = some p := by
  constructor
  · intro h
    obtain ⟨first, m, rest, heq, hm, hk⟩ := h
    rcases List.eq_nil_or_concat rest with rfl | ⟨rest', x, rfl⟩
    · obtain ⟨rfl, hkey⟩ := List.append_inj' heq rfl
      cases hkey
      exact .inr ⟨hm, hk⟩
    · rw [List.concat_eq_append, ← List.cons_append, ← List.append_assoc] at heq
      obtain ⟨hbefore, -⟩ := List.append_inj' heq rfl
      exact .inl ⟨first, m, rest', hbefore, hm, hk⟩
  · intro h
    rcases h with ⟨first, m, rest, rfl, hm, hk⟩ | ⟨hm, hk⟩
    · exact ⟨first, m, rest ++ [key], by simp, hm, hk⟩
    · exact ⟨before, key, [], rfl, hm, hk⟩

theorem distinct_none (hkey : s.holds key = none) :
    distinct s (before ++ [key]) = distinct s before := by
  rw [distinct, List.filterMap_append, List.filterMap_cons_none hkey]
  simp [distinct]

theorem mem_filterMap_holds {p : Addr} :
    p ∈ (before.filterMap s.holds).toFinset ↔ ∃ k ∈ before, s.holds k = some p := by
  simp

theorem distinct_seen {p : Addr} (hkey : s.holds key = some p) (hp : ∃ k ∈ before, s.holds k = some p) :
    distinct s (before ++ [key]) = distinct s before := by
  rw [distinct, List.filterMap_append, List.toFinset_append, Finset.union_eq_left.2]
  · rfl
  · intro q hq
    simp [hkey] at hq
    rw [hq]
    exact mem_filterMap_holds.2 hp

theorem distinct_new {p : Addr} (hkey : s.holds key = some p) (hp : ∀ k ∈ before, s.holds k ≠ some p) :
    distinct s (before ++ [key]) = distinct s before + 1 := by
  have hnot : p ∉ (before.filterMap s.holds).toFinset := fun hm => by
    obtain ⟨k, hk, hkp⟩ := mem_filterMap_holds.1 hm
    exact hp k hk hkp
  rw [distinct, distinct, ← Finset.card_insert_of_notMem hnot]
  congr 1
  ext q
  simp [hkey, eq_comm]

/-- The array, with `before` the keys visited. -/
structure FoundSize (E : Env) (st : State) (s : RpcStruct) (before : List CStr) (fs : FoundState) :
    Prop where
  length : fs.duplicates.length = distinct s before
  capacity : ∃ n, fs.capacity = 16 * 2 ^ n ∧ distinct s before ≤ 16 * 2 ^ n ∧
    ∀ m < n, 16 * 2 ^ m < distinct s before
  seen : ∀ p, (∃ i, fs.ptrMap.lookup p = some i) ↔ ∃ k ∈ before, s.holds k = some p
  block : ∀ p i b, fs.ptrMap.lookup p = some (i, b) → b ≤ fs.block ∧
    (b = fs.block ↔ ¬ Stale E st s before p)
  type : ∀ d ∈ fs.duplicates, ∃ e, s.map.lookup d.originalName = some e ∧ e.type = d.type

/-- The array is full when it holds 16 groups, 32, and so on. -/
theorem FoundSize.full_iff {fs : FoundState} (h : FoundSize E st s before fs) :
    fs.duplicates.length = fs.capacity ↔ ∃ n, distinct s before = 16 * 2 ^ n := by
  obtain ⟨n, hcap, hle, hlt⟩ := h.capacity
  rw [h.length, hcap]
  constructor
  · exact fun heq => ⟨n, heq⟩
  · intro hfull
    obtain ⟨m, hm⟩ := hfull
    rcases Nat.lt_trichotomy m n with hmn | hmn | hmn
    · have := hlt m hmn
      omega
    · rw [hm, hmn]
    · have : 2 ^ n < 2 ^ m := Nat.pow_lt_pow_right (by decide) hmn
      omega

/-- A key with nothing new: the array stays as it is. -/
theorem FoundSize.same {fs : FoundState} (h : FoundSize E st s before fs)
    (hkey : ∀ p, s.holds key = some p → ∃ k ∈ before, s.holds k = some p) :
    FoundSize E st s (before ++ [key]) fs := by
  have hdistinct : distinct s (before ++ [key]) = distinct s before := by
    cases hk : s.holds key with
    | none => exact distinct_none hk
    | some p => exact distinct_seen hk (hkey p hk)
  have hstale : ∀ p, Stale E st s (before ++ [key]) p ↔ Stale E st s before p := by
    intro p
    rw [stale_snoc, or_iff_left]
    intro hm
    obtain ⟨⟨q, hq, hnew⟩, -⟩ := hm.1
    obtain ⟨k, hk, hkq⟩ := hkey q hq
    exact hnew k hk hkq
  refine ⟨h.length.trans hdistinct.symm, by rw [hdistinct]; exact h.capacity, fun p => ?_,
    fun p i b hp => by rw [hstale]; exact h.block p i b hp, h.type⟩
  rw [h.seen]
  constructor
  · intro hp
    obtain ⟨k, hk, hkp⟩ := hp
    exact ⟨k, List.mem_append_left _ hk, hkp⟩
  · intro hp
    obtain ⟨k, hk, hkp⟩ := hp
    rcases List.mem_append.1 hk with hk | hk
    · exact ⟨k, hk, hkp⟩
    · rw [List.mem_singleton.1 hk] at hkp
      exact hkey p hkp

/-- The state of the array after it made room for a new group. -/
def FoundState.grown (E : Env) (st : State) (fs : FoundState) : FoundState :=
  if fs.duplicates.length = fs.capacity then
    { fs with capacity := fs.capacity * 2,
              block := if E.moves st (fs.capacity * 2) then fs.block + 1 else fs.block }
  else fs

theorem FoundSize.block_grown {fs : FoundState} (h : FoundSize E st s before fs) {p : Addr}
    (hkey : s.holds key = some p) (hp : ∀ k ∈ before, s.holds k ≠ some p) :
    fs.block ≤ (fs.grown E st).block ∧
      (fs.block = (fs.grown E st).block ↔ ¬ MovesAt E st s before key) := by
  have hmoves : MovesAt E st s before key ↔
      fs.duplicates.length = fs.capacity ∧ E.moves st (fs.capacity * 2) = true := by
    constructor
    · intro hm
      have hfull := h.full_iff.2 hm.full
      refine ⟨hfull, ?_⟩
      rw [← hfull, h.length]
      exact hm.moves
    · intro hm
      refine ⟨⟨p, hkey, hp⟩, h.full_iff.1 hm.1, ?_⟩
      rw [← h.length, hm.1]
      exact hm.2
  rw [hmoves]
  unfold FoundState.grown
  by_cases hfull : fs.duplicates.length = fs.capacity
  · rw [if_pos hfull]
    by_cases hmv : E.moves st (fs.capacity * 2) = true
    · simp [hfull, hmv]
    · simp [hmv]
  · rw [if_neg hfull]
    simp [hfull]

/-- A new group. -/
theorem FoundSize.new {fs : FoundState} (h : FoundSize E st s before fs) {p : Addr}
    {element : RpcTypeT} (he : s.map.lookup key = some element) (hkey : s.holds key = some p)
    (hp : ∀ k ∈ before, s.holds k ≠ some p) :
    FoundSize E st s (before ++ [key])
      { fs.grown E st with
        duplicates := (fs.grown E st).duplicates ++ [⟨element.type, key, []⟩],
        ptrMap := (fs.grown E st).ptrMap.insert p
          ((fs.grown E st).duplicates.length, (fs.grown E st).block) } := by
  have hdup : (fs.grown E st).duplicates = fs.duplicates := by unfold FoundState.grown; split <;> rfl
  have hmap : (fs.grown E st).ptrMap = fs.ptrMap := by unfold FoundState.grown; split <;> rfl
  have hdistinct := distinct_new hkey hp
  obtain ⟨hle, hblock⟩ := h.block_grown hkey hp
  refine ⟨?_, ?_, fun q => ?_, fun q i b hq => ?_, fun d hd => ?_⟩
  · simp only [hdup, List.length_append, List.length_singleton, h.length, hdistinct]
  · obtain ⟨n, hcap, hroom, hlt⟩ := h.capacity
    rw [hdistinct]
    by_cases hfull : fs.duplicates.length = fs.capacity
    · have hdn : distinct s before = 16 * 2 ^ n := by rw [← h.length, hfull, hcap]
      have hpos : 0 < 2 ^ n := Nat.two_pow_pos n
      have hcap' : (fs.grown E st).capacity = fs.capacity * 2 := by
        rw [FoundState.grown, if_pos hfull]
      refine ⟨n + 1, ?_, ?_, fun m hm => ?_⟩
      · rw [Nat.pow_succ, ← Nat.mul_assoc, ← hcap]
        exact hcap'
      · rw [Nat.pow_succ]
        omega
      · have : 2 ^ m ≤ 2 ^ n := Nat.pow_le_pow_right (by decide) (Nat.le_of_lt_succ hm)
        omega
    · have hne : distinct s before ≠ 16 * 2 ^ n := by
        intro hdn
        rw [h.length, hcap, hdn] at hfull
        exact hfull rfl
      have hcap' : (fs.grown E st).capacity = fs.capacity := by
        rw [FoundState.grown, if_neg hfull]
      refine ⟨n, hcap'.trans hcap, by omega, fun m hm => ?_⟩
      · have := hlt m hm
        omega
  · simp only [hmap, Table.lookup_insert_if]
    by_cases hq : q = p
    · subst hq
      simp [hkey]
    · rw [if_neg hq, h.seen]
      have hother : s.holds key ≠ some q := by
        rw [hkey]
        exact fun hc => hq (Option.some.inj hc).symm
      simp [List.mem_append, or_and_right, exists_or, hother]
  · simp only [hmap, Table.lookup_insert_if] at hq
    split at hq
    · rename_i hqp
      cases hq
      subst hqp
      refine ⟨Nat.le_refl _, fun _ hst => ?_, fun _ => rfl⟩
      -- the pointer is taken after the growth
      rcases stale_snoc.1 hst with ⟨first, m, rest, rfl, -, k, hk, hkq⟩ | ⟨-, k, hk, hkq⟩
      · exact hp k (List.mem_append_left _ hk) hkq
      · exact hp k hk hkq
    · obtain ⟨hb, hst⟩ := h.block q i b hq
      have hseen := (h.seen q).1 ⟨_, hq⟩
      refine ⟨hb.trans hle, ?_⟩
      rw [stale_snoc, not_or, and_iff_left hseen, ← hst, ← hblock]
      simp only
      omega
  · simp only [hdup] at hd
    rcases List.mem_append.1 hd with hd | hd
    · exact h.type d hd
    · rw [List.mem_singleton.1 hd]
      exact ⟨element, he, rfl⟩

/-- One key: the step fails exactly when the pointer it goes through is stale. -/
theorem foundStep_iff (key : CStr) {fs : FoundState} (h : FoundSize E st s before fs) :
    SucceedsIff (∀ p, s.holds key = some p → ¬ Stale E st s before p) (foundStep E st s fs key)
      (FoundSize E st s (before ++ [key])) := by
  have hnone : s.holds key = none → ∀ p, s.holds key = some p → ∃ k ∈ before, s.holds k = some p :=
    fun hk p hp => by rw [hk] at hp; cases hp
  have hok : s.holds key = none → ∀ p, s.holds key = some p → ¬ Stale E st s before p :=
    fun hk p hp => by rw [hk] at hp; cases hp
  unfold foundStep
  cases he : s.map.lookup key with
  | none =>
    have hk : s.holds key = none := by simp [RpcStruct.holds, he]
    exact .ok (hok hk) rfl (h.same (hnone hk))
  | some element =>
    cases ht : element.target with
    | none =>
      have hk : s.holds key = none := by simp [RpcStruct.holds, he, ht]
      exact .ok (hok hk) (by simp only [ht]) (h.same (hnone hk))
    | some p =>
      have hkey : s.holds key = some p := by simp [RpcStruct.holds, he, ht]
      cases hp : fs.ptrMap.lookup p with
      | none =>
        have hnew : ∀ k ∈ before, s.holds k ≠ some p := by
          intro k hk hkp
          obtain ⟨i, hi⟩ := (h.seen p).2 ⟨k, hk, hkp⟩
          rw [hp] at hi
          cases hi
        refine .ok (fun q hq hst => ?_) (by simp only [ht, hp]; rfl) (h.new he hkey hnew)
        rw [hkey] at hq
        cases hq
        obtain ⟨first, m, rest, rfl, -, k, hk, hkp⟩ := hst
        exact hnew k (List.mem_append_left _ hk) hkp
      | some ib =>
        obtain ⟨i, b⟩ := ib
        have hseen := (h.seen p).1 ⟨_, hp⟩
        obtain ⟨-, hst⟩ := h.block p i b hp
        simp only [ht, hp]
        by_cases hb : b = fs.block
        · rw [if_pos hb]
          have hsame : FoundSize E st s (before ++ [key]) fs := h.same fun q hq => by
            rw [hkey] at hq
            cases hq
            exact hseen
          refine .ok (fun q hq => ?_) rfl ⟨?_, hsame.capacity, hsame.seen, hsame.block, fun d hd => ?_⟩
          · rw [hkey] at hq
            cases hq
            exact hst.1 hb
          · rw [List.length_modify]
            exact hsame.length
          · obtain ⟨j, hj⟩ := List.mem_iff_getElem?.1 hd
            rw [List.getElem?_modify] at hj
            obtain ⟨d', hd', heq⟩ := Option.map_eq_some_iff.1 hj
            have hname : d.originalName = d'.originalName ∧ d.type = d'.type := by
              rw [← heq]
              by_cases hij : i = j <;> simp [hij]
            rw [hname.1, hname.2]
            exact h.type d' (List.mem_of_getElem? hd')
        · rw [if_neg hb]
          refine .error (fun hc => hb (hst.2 (hc p hkey))) rfl

/-- The loop, `before` being visited already. -/
theorem foundLoop_iff (keys : List CStr) : ∀ (before : List CStr) (fs : FoundState),
    FoundSize E st s before fs →
    SucceedsIff (∀ first k rest p, keys = first ++ k :: rest → s.holds k = some p →
        ¬ Stale E st s (before ++ first) p)
      (keys.foldlM (foundStep E st s) fs) (FoundSize E st s (before ++ keys)) := by
  induction keys with
  | nil =>
    intro before fs h
    refine .ok (fun first k rest p hnil => ?_) rfl (by rwa [List.append_nil])
    cases first <;> cases hnil
  | cons key keys ih =>
    intro before fs h
    rw [List.foldlM_cons]
    have hstep := (foundStep_iff key h).bind fun fs1 h1 => ih (before ++ [key]) fs1 h1
    rw [List.append_assoc] at hstep
    refine hstep.congr ?_
    constructor
    · intro hall
      refine ⟨fun p hp => ?_, fun first k rest p heq hp => ?_⟩
      · have := hall [] key keys p rfl hp
        rwa [List.append_nil] at this
      · have := hall (key :: first) k rest p (by rw [heq]; rfl) hp
        rwa [List.append_assoc]
    · intro hall first k rest p heq hp
      cases first with
      | nil =>
        cases heq
        rw [List.append_nil]
        exact hall.1 p hp
      | cons x first =>
        rw [List.cons_append] at heq
        cases heq
        have := hall.2 first k rest p rfl hp
        rwa [List.append_assoc] at this

/-- The search finds an exact partition exactly when it writes through no stale pointer. -/
theorem found_iff (h : api.Reachable st) (E : Env) {S : Addr} (hs : st.struct? S = some s) :
    (∃ dups, rpcStructFoundDuplicates E st S = .ok dups ∧ Partition st s dups) ↔
      Undisturbed E st s (E.order st S s.map.keys) := by
  have hstart : FoundSize E st s [] ⟨0, 16, [], ∅⟩ := by
    refine ⟨rfl, ⟨0, rfl, Nat.zero_le _, nofun⟩, fun p => ?_, fun p i b hp => ?_, nofun⟩
    · simp
    · rw [AList.lookup_empty] at hp
      cases hp
  have hloop := foundLoop_iff (E.order st S s.map.keys) [] _ hstart
  have hrun : ∀ dups, rpcStructFoundDuplicates E st S = .ok dups ↔
      ∃ fs, (E.order st S s.map.keys).foldlM (foundStep E st s) ⟨0, 16, [], ∅⟩ = .ok fs ∧
        fs.duplicates = dups := by
    intro dups
    unfold rpcStructFoundDuplicates
    rw [hs]
    simp only [bind_eq_ok, Except.ok.injEq]
  have hiff := hloop.iff
  simp only [List.nil_append] at hiff
  rw [Undisturbed]
  constructor
  · intro hok before k after p heq hp
    obtain ⟨dups, hdups, -⟩ := hok
    obtain ⟨fs, hfs, -⟩ := (hrun dups).1 hdups
    exact hiff.1 ⟨fs, hfs, hloop.of_ok hfs⟩ before k after p heq hp
  · intro hun
    obtain ⟨fs, hfs, hsize⟩ := hiff.2 hun
    have hdups := (hrun fs.duplicates).2 ⟨fs, hfs, rfl⟩
    have hgroups : AliasGroups s s.map.keys fs.duplicates := by
      rcases found_spec E hs with ⟨dups, hd, hgroups⟩ | ⟨-, e, he⟩
      · rw [hdups] at hd
        cases hd
        exact hgroups
      · rw [hdups] at he
        cases he
    refine ⟨fs.duplicates, hdups, hgroups, fun d hd => ?_⟩
    obtain ⟨e, he, hty⟩ := hsize.type d hd
    obtain ⟨p, hp, -⟩ := hgroups.held d hd
    have ht : e.target = some p := by simpa [RpcStruct.holds, he] using hp
    obtain ⟨o, ho, hoty⟩ := (api_wf h).inv.typed S d.originalName e p
      (by rw [entry_of_struct hs, he]) ht (Set.notMem_empty p) (Finset.notMem_empty _)
    exact ⟨p, o, hp, ho, by rw [hoty, hty]⟩

/-- Sixteen keys do not fill the array. -/
theorem undisturbed_of_le {keys : List CStr} (hlen : keys.length ≤ 16) : Undisturbed E st s keys := by
  intro before k after p heq _ hst
  obtain ⟨first, m, rest, hbefore, hm, -⟩ := hst
  obtain ⟨n, hn⟩ := hm.full
  have hcard : distinct s first ≤ first.length :=
    (List.toFinset_card_le _).trans (List.length_filterMap_le ..)
  have hpos : 0 < 2 ^ n := Nat.two_pow_pos n
  have hlong : keys.length = first.length + 1 + rest.length + 1 + after.length := by
    rw [heq, hbefore]
    simp only [List.length_append, List.length_cons]
    omega
  omega

/-- A sizedbuf under two keys. -/
theorem found_iff_pair : ∃ st s dups, st.struct? 1 = some s ∧ st.held 1 [107] = some 2 ∧
    st.held 1 [108] = some 2 ∧ rpcStructFoundDuplicates .bump st 1 = .ok dups ∧
    Partition st s dups := by
  have h1 := graph_step .bump .structCreate (.init rfl) trivial trivial rfl
  have h2 := graph_step .bump (.sizedbufCreate [7]) h1 trivial trivial rfl
  have h3 := graph_step .bump (.set 1 [107] (.sizedbuf 2)) h2
    ⟨⟨_, rfl⟩, trivial, fun p hp _ => by cases hp; exact ⟨_, rfl, rfl⟩⟩ trivial rfl
  have h4 := graph_step .bump (.set 1 [108] (.sizedbuf 2)) h3
    ⟨⟨_, rfl⟩, trivial, fun p hp _ => by cases hp; exact ⟨_, rfl, rfl⟩⟩ trivial rfl
  obtain ⟨st, s, h, hs, hk, hl, hlen⟩ : ∃ (st : State) (s : RpcStruct), api.Reachable st ∧
      st.struct? 1 = some s ∧ st.held 1 [107] = some 2 ∧ st.held 1 [108] = some 2 ∧
      s.map.keys.length ≤ 16 := ⟨_, _, h4.of_restrict, rfl, rfl, rfl, by decide⟩
  obtain ⟨dups, hdups, hpart⟩ := (found_iff h .bump hs).2
    (undisturbed_of_le ((Env.bump.order_perm st 1 s.map.keys).length_eq.trans_le hlen))
  exact ⟨st, s, dups, hs, hk, hl, hdups, hpart⟩

/-- Seventeen sizedbufs, one of them under the key visited first and the key visited last. -/
def crowdedOps : List Op :=
  .structCreate :: (List.replicate 17 (.sizedbufCreate [])) ++ [.set 1 [122] (.sizedbuf 2)] ++
    ((List.range 16).map fun i => .set 1 [UInt8.ofNat (i + 1)] (.sizedbuf (i + 3))) ++
    [.set 1 [97] (.sizedbuf 2)]

/-- The last key goes through the pointer of the first, which the array has left behind. -/
theorem crowded_fails : ∃ st s, api.Reachable st ∧ st.struct? 1 = some s ∧
    st.held 1 [97] = some 2 ∧ st.held 1 [122] = some 2 ∧
    ¬ ∃ dups, rpcStructFoundDuplicates .bump st 1 = .ok dups ∧ Partition st s dups := by
  have hfacts : ((build .bump .empty crowdedOps).map fun st =>
      decide ((st.struct? 1).isSome = true ∧ st.held 1 [97] = some 2 ∧ st.held 1 [122] = some 2 ∧
        (rpcStructFoundDuplicates .bump st 1).isOk = false)) = some true := by
    decide +kernel
  obtain ⟨st, hst, hfacts⟩ := Option.map_eq_some_iff.1 hfacts
  obtain ⟨hs, ha, hz, hfail⟩ := of_decide_eq_true hfacts
  obtain ⟨s, hs⟩ := Option.isSome_iff_exists.1 hs
  refine ⟨st, s, (build_reachable (.init rfl) hst).of_restrict, hs, ha, hz, fun hok => ?_⟩
  obtain ⟨dups, hdups, -⟩ := hok
  rw [hdups] at hfail
  cases hfail

end

end FfiRpc
