import FfiRpc.Wire.Content

/-!
# Alias groups

What `rpc_struct_found_duplicates` computes: the keys of a struct that hold an
object, grouped by the object (`AliasGroups`), one key of each group being its
original name. With at most 16 keys it always returns; beyond that it may follow
a pointer into an array that `realloc` has moved (`found_spec`). Whenever it
returns, the groups are right.

`AliasGroups.fields` is what the two parts of a serialised struct then satisfy.
-/
namespace FfiRpc

open State

/-- The object a struct holds under a key. -/
def RpcStruct.holds (s : RpcStruct) (k : CStr) : Option Addr :=
  (s.map.lookup k).bind RpcTypeT.target

/-- `dups` groups the keys of `seen` that hold an object. -/
structure AliasGroups (s : RpcStruct) (seen : List CStr) (dups : List DupInfo) : Prop where
  held : ∀ d ∈ dups, ∃ p, s.holds d.originalName = some p ∧
    ∀ k ∈ d.duplicates, s.holds k = some p
  visited : ∀ d ∈ dups, ∀ k ∈ d.originalName :: d.duplicates, k ∈ seen
  once : ∀ d ∈ dups, (d.originalName :: d.duplicates).Nodup
  cover : ∀ k ∈ seen, ∀ p, s.holds k = some p → ∃ d ∈ dups, k ∈ d.originalName :: d.duplicates
  apart : (dups.map fun d => s.holds d.originalName).Nodup

namespace AliasGroups
variable {s : RpcStruct} {seen : List CStr} {dups : List DupInfo}

theorem nil (s : RpcStruct) : AliasGroups s [] [] :=
  ⟨nofun, nofun, nofun, nofun, List.nodup_nil⟩

theorem perm {seen' : List CStr} (h : AliasGroups s seen dups) (hp : seen.Perm seen') :
    AliasGroups s seen' dups :=
  ⟨h.held, fun d hd k hk => hp.mem_iff.1 (h.visited d hd k hk), h.once,
    fun k hk => h.cover k (hp.mem_iff.2 hk), h.apart⟩

/-- A key that holds nothing. -/
theorem skip (h : AliasGroups s seen dups) {key : CStr} (hkey : s.holds key = none) :
    AliasGroups s (key :: seen) dups := by
  refine ⟨h.held, fun d hd k hk => List.mem_cons_of_mem _ (h.visited d hd k hk), h.once,
    fun k hk p hp => ?_, h.apart⟩
  rcases List.mem_cons.1 hk with hk | hk
  · subst hk
    rw [hkey] at hp; cases hp
  · exact h.cover k hk p hp

/-- A key that holds an object no key so far holds. -/
theorem new (h : AliasGroups s seen dups) {key : CStr} {p : Addr} (t : RpcTypes)
    (hkey : s.holds key = some p) (hp : ∀ k ∈ seen, s.holds k ≠ some p) :
    AliasGroups s (key :: seen) (dups ++ [⟨t, key, []⟩]) := by
  refine ⟨fun d hd => ?_, fun d hd k hk => ?_, fun d hd => ?_, fun k hk q hq => ?_, ?_⟩
  · rcases List.mem_append.1 hd with hd | hd
    · exact h.held d hd
    · cases List.mem_singleton.1 hd
      exact ⟨p, hkey, nofun⟩
  · rcases List.mem_append.1 hd with hd | hd
    · exact List.mem_cons_of_mem _ (h.visited d hd k hk)
    · cases List.mem_singleton.1 hd
      cases List.mem_singleton.1 hk
      exact List.mem_cons_self
  · rcases List.mem_append.1 hd with hd | hd
    · exact h.once d hd
    · cases List.mem_singleton.1 hd
      exact List.nodup_singleton _
  · rcases List.mem_cons.1 hk with hk | hk
    · subst hk
      exact ⟨_, List.mem_append_right _ (List.mem_singleton.2 rfl), List.mem_cons_self⟩
    · obtain ⟨d, hd, hkd⟩ := h.cover k hk q hq
      exact ⟨d, List.mem_append_left _ hd, hkd⟩
  · rw [List.map_append, List.nodup_append]
    refine ⟨h.apart, List.nodup_singleton _, fun x hx y hy hxy => ?_⟩
    obtain ⟨d, hd, hdx⟩ := List.mem_map.1 hx
    rw [List.map_singleton, List.mem_singleton] at hy
    exact hp _ (h.visited d hd _ List.mem_cons_self) (by rw [hdx, hxy, hy, hkey])

/-- A key that holds the object of group `i`. -/
theorem add (h : AliasGroups s seen dups) {key : CStr} {i : Nat} {d : DupInfo}
    (hi : dups[i]? = some d) (hnew : key ∉ seen) (hkey : s.holds key = s.holds d.originalName) :
    AliasGroups s (key :: seen)
      (dups.modify i fun info => { info with duplicates := info.duplicates ++ [key] }) := by
  set dups' := dups.modify i fun info => { info with duplicates := info.duplicates ++ [key] }
  have hdm : d ∈ dups := List.mem_of_getElem? hi
  have hget : ∀ j, dups'[j]? =
      (dups[j]?).map fun info =>
        if i = j then { info with duplicates := info.duplicates ++ [key] } else info := by
    intro j
    rw [List.getElem?_modify]
    split <;> simp
  -- a group after the step: an old one, or group `i` with the key
  have hmem : ∀ d' ∈ dups', d' ∈ dups ∨ d' = { d with duplicates := d.duplicates ++ [key] } := by
    intro d' hd'
    obtain ⟨j, hj⟩ := List.mem_iff_getElem?.1 hd'
    rw [hget] at hj
    obtain ⟨info, hinfo, rfl⟩ := Option.map_eq_some_iff.1 hj
    split
    · rename_i hij
      subst hij
      rw [hi] at hinfo
      cases hinfo
      exact .inr rfl
    · exact .inl (List.mem_of_getElem? hinfo)
  refine ⟨fun d' hd' => ?_, fun d' hd' k hk => ?_, fun d' hd' => ?_, fun k hk q hq => ?_, ?_⟩
  · rcases hmem d' hd' with hd' | hd'
    · exact h.held d' hd'
    · subst hd'
      obtain ⟨p, hp, hall⟩ := h.held d hdm
      refine ⟨p, hp, fun k hk => ?_⟩
      rcases List.mem_append.1 hk with hk | hk
      · exact hall k hk
      · rw [List.mem_singleton.1 hk, hkey, hp]
  · rcases hmem d' hd' with hd' | hd'
    · exact List.mem_cons_of_mem _ (h.visited d' hd' k hk)
    · subst hd'
      rw [← List.cons_append] at hk
      rcases List.mem_append.1 hk with hk | hk
      · exact List.mem_cons_of_mem _ (h.visited d hdm k hk)
      · rw [List.mem_singleton.1 hk]
        exact List.mem_cons_self
  · rcases hmem d' hd' with hd' | hd'
    · exact h.once d' hd'
    · subst hd'
      rw [← List.cons_append, List.nodup_append]
      refine ⟨h.once d hdm, List.nodup_singleton _, fun x hx y hy hxy => ?_⟩
      rw [List.mem_singleton.1 hy] at hxy
      exact hnew (hxy ▸ h.visited d hdm x hx)
  · have hkeep : ∀ d' ∈ dups, k ∈ d'.originalName :: d'.duplicates →
        ∃ d'' ∈ dups', k ∈ d''.originalName :: d''.duplicates := by
      intro d' hd' hk'
      obtain ⟨j, hj⟩ := List.mem_iff_getElem?.1 hd'
      refine ⟨_, List.mem_of_getElem? (by rw [hget, hj]; rfl), ?_⟩
      split
      · rw [← List.cons_append]
        exact List.mem_append_left _ hk'
      · exact hk'
    rcases List.mem_cons.1 hk with hk | hk
    · subst hk
      refine ⟨{ d with duplicates := d.duplicates ++ [k] },
        List.mem_of_getElem? (by rw [hget, hi, Option.map_some, if_pos rfl]), ?_⟩
      exact List.mem_cons_of_mem _ (List.mem_append_right _ (List.mem_singleton.2 rfl))
    · obtain ⟨d', hd', hkd⟩ := h.cover k hk q hq
      exact hkeep d' hd' hkd
  · have hsame : dups'.map (fun d => s.holds d.originalName) =
        dups.map fun d => s.holds d.originalName := by
      refine List.ext_getElem? fun j => ?_
      rw [List.getElem?_map, List.getElem?_map, hget, Option.map_map]
      congr 1
      funext info
      rw [Function.comp_apply]
      split <;> rfl
    rw [hsame]
    exact h.apart

end AliasGroups

/-! ## The search

The loop keeps for each object met where its group is in an array that grows by doubling.
It keeps an address, not a position, so after `realloc` has moved the array the next alias
is written through a pointer that is no longer good. -/

/-- The loop of the search, `seen` being the keys visited. -/
structure FoundInv (s : RpcStruct) (seen : List CStr) (fs : FoundState) : Prop where
  groups : AliasGroups s seen fs.duplicates
  new : ∀ p, fs.ptrMap.lookup p = none → ∀ k ∈ seen, s.holds k ≠ some p
  index : ∀ p i b, fs.ptrMap.lookup p = some (i, b) →
    ∃ d, fs.duplicates[i]? = some d ∧ s.holds d.originalName = some p
  length : fs.duplicates.length ≤ seen.length
  block : seen.length ≤ 16 → fs.capacity = 16 ∧ fs.block = 0 ∧
    ∀ p i b, fs.ptrMap.lookup p = some (i, b) → b = 0

/-- One key: nothing held, a new object, or one more alias. -/
theorem foundStep_spec {E : Env} {st : State} {s : RpcStruct} {seen : List CStr} {fs : FoundState}
    (h : FoundInv s seen fs) {key : CStr} (hnew : key ∉ seen) {bad : Prop}
    (hbad : 16 < (key :: seen).length → bad) :
    Yields bad (foundStep E st s fs key) (FoundInv s (key :: seen)) := by
  have hskip : s.holds key = none → FoundInv s (key :: seen) fs := by
    intro hkey
    refine ⟨h.groups.skip hkey, fun p hp k hk => ?_, h.index, h.length.trans (Nat.le_succ _),
      fun hlen => h.block (Nat.le_of_succ_le hlen)⟩
    rcases List.mem_cons.1 hk with hk | hk
    · subst hk
      rw [hkey]; nofun
    · exact h.new p hp k hk
  unfold foundStep
  cases he : s.map.lookup key with
  | none => exact .ok rfl (hskip (by simp [RpcStruct.holds, he]))
  | some element =>
    cases ht : element.target with
    | none => exact .ok (by simp only [ht]) (hskip (by simp [RpcStruct.holds, he, ht]))
    | some p =>
      have hkey : s.holds key = some p := by simp [RpcStruct.holds, he, ht]
      cases hp : fs.ptrMap.lookup p with
      | none =>
        simp only [ht, hp]
        set fs1 := if fs.duplicates.length = fs.capacity then _ else fs with hfs1
        have hdup : fs1.duplicates = fs.duplicates := by rw [hfs1]; split <;> rfl
        have hmap : fs1.ptrMap = fs.ptrMap := by rw [hfs1]; split <;> rfl
        refine .ok rfl ⟨?_, ?_, ?_, ?_, ?_⟩
        · rw [hdup]
          exact h.groups.new _ hkey (h.new p hp)
        · intro q hq k hk
          simp only [hmap, Table.lookup_insert_if] at hq
          split at hq
          · cases hq
          · rename_i hqp
            rcases List.mem_cons.1 hk with hk | hk
            · subst hk
              rw [hkey]
              exact fun hc => hqp (Option.some.inj hc).symm
            · exact h.new q hq k hk
        · intro q i b hq
          simp only [hmap, Table.lookup_insert_if] at hq
          split at hq
          · rename_i hqp
            cases hq
            refine ⟨⟨element.type, key, []⟩, by simp [hdup], ?_⟩
            rw [hkey, hqp]
          · obtain ⟨d, hd, hdq⟩ := h.index q i b hq
            refine ⟨d, ?_, hdq⟩
            rw [hdup, List.getElem?_append_left (List.getElem?_eq_some_iff.1 hd).1, hd]
        · rw [hdup, List.length_append, List.length_singleton, List.length_cons]
          exact Nat.succ_le_succ h.length
        · intro hlen
          rw [List.length_cons] at hlen
          obtain ⟨hcap, hblk, hall⟩ := h.block (by omega)
          have hroom : fs.duplicates.length ≠ fs.capacity := by
            have := h.length
            omega
          have hfs : fs1 = fs := by rw [hfs1, if_neg hroom]
          refine ⟨by rw [hfs]; exact hcap, by rw [hfs]; exact hblk, fun q i b hq => ?_⟩
          simp only [hfs, Table.lookup_insert_if] at hq
          split at hq
          · cases hq
            exact hblk
          · exact hall q i b hq
      | some ib =>
        obtain ⟨i, b⟩ := ib
        simp only [ht, hp]
        split
        · obtain ⟨d, hd, hdp⟩ := h.index p i b hp
          refine .ok rfl ⟨h.groups.add hd hnew (hkey.trans hdp.symm), ?_, ?_, ?_, ?_⟩
          · intro q hq k hk
            rcases List.mem_cons.1 hk with hk | hk
            · subst hk
              rw [hkey]
              intro hc
              cases hc
              rw [hp] at hq; cases hq
            · exact h.new q hq k hk
          · intro q j b' hq
            obtain ⟨d', hd', hdq⟩ := h.index q j b' hq
            simp only [List.getElem?_modify, hd']
            refine ⟨_, rfl, ?_⟩
            rw [← hdq]
            split <;> rfl
          · simp only [List.length_modify, List.length_cons]
            exact h.length.trans (Nat.le_succ _)
          · exact fun hlen => h.block (Nat.le_of_succ_le hlen)
        · rename_i hb
          refine .inr ⟨hbad (Nat.lt_of_not_le fun hlen => hb ?_), _, rfl⟩
          obtain ⟨-, hblk, hall⟩ := h.block (Nat.le_of_succ_le hlen)
          rw [hblk, hall p i b hp]

/-- It returns, on a struct with at most 16 keys, and what it returns are the
alias groups. -/
theorem found_spec (E : Env) {st : State} {S : Addr} {s : RpcStruct} (hs : st.struct? S = some s) :
    Yields (16 < s.map.keys.length) (rpcStructFoundDuplicates E st S)
      (AliasGroups s s.map.keys) := by
  have hperm := E.order_perm st S s.map.keys
  have hloop : Yields (16 < s.map.keys.length)
      ((E.order st S s.map.keys).foldlM (foundStep E st s) ⟨0, 16, [], ∅⟩)
      (fun fs => FoundInv s ((E.order st S s.map.keys).reverse ++ []) fs ∧
        (E.order st S s.map.keys).reverse ++ [] ⊆ s.map.keys ∧
        ((E.order st S s.map.keys).reverse ++ []).Nodup) := by
    refine Yields.foldlM (fun seen fs => FoundInv s seen fs ∧ seen ⊆ s.map.keys ∧ seen.Nodup)
      _ [] _ (hperm.nodup_iff.2 (AList.keys_nodup s.map)) (fun _ _ => List.not_mem_nil) ?_ ?_
    · refine ⟨⟨.nil s, fun _ _ => nofun, fun p i b hp => ?_, Nat.le_refl _, fun _ => ?_⟩,
        List.nil_subset _, List.nodup_nil⟩
      · rw [AList.lookup_empty] at hp; cases hp
      · exact ⟨rfl, rfl, fun p i b hp => by rw [AList.lookup_empty] at hp; cases hp⟩
    · intro seen fs key hkey hnew hI
      obtain ⟨hinv, hsub, hnd⟩ := hI
      have hsub' : key :: seen ⊆ s.map.keys :=
        List.cons_subset.2 ⟨hperm.mem_iff.1 hkey, hsub⟩
      have hnd' : (key :: seen).Nodup := List.nodup_cons.2 ⟨hnew, hnd⟩
      refine (foundStep_spec hinv hnew fun hlen => ?_).mono fun fs' hfs' => ⟨hfs', hsub', hnd'⟩
      exact Nat.lt_of_lt_of_le hlen (List.subperm_of_subset hnd' hsub').length_le
  unfold rpcStructFoundDuplicates
  rw [hs]
  refine hloop.bind fun fs hfs => .ok rfl ?_
  refine hfs.1.groups.perm ?_
  rw [List.append_nil]
  exact (List.reverse_perm _).trans hperm

/-! ## The two parts of a serialised struct

The keys under `serialised` are one for each object; the others are under `duplicates`. -/

/-- The fields of `duplicates`. -/
def aliasFields (dups : List DupInfo) : List (CStr × Json) :=
  dups.flatMap fun d => d.duplicates.map fun k => (k, .str d.originalName)

namespace AliasGroups
variable {s : RpcStruct} {seen : List CStr} {dups : List DupInfo}

/-- Two groups of one object are the same. -/
theorem eq_of_holds (h : AliasGroups s seen dups) {d d' : DupInfo} (hd : d ∈ dups) (hd' : d' ∈ dups)
    {k k' : CStr} (hk : k ∈ d.originalName :: d.duplicates)
    (hk' : k' ∈ d'.originalName :: d'.duplicates) (hs : s.holds k = s.holds k') : d = d' := by
  have hname : ∀ d ∈ dups, ∀ k ∈ d.originalName :: d.duplicates,
      s.holds k = s.holds d.originalName := by
    intro d hd k hk
    obtain ⟨p, hp, hall⟩ := h.held d hd
    rcases List.mem_cons.1 hk with hk | hk
    · rw [hk]
    · rw [hall k hk, hp]
  refine List.inj_on_of_nodup_map h.apart hd hd' ?_
  rw [← hname d hd k hk, ← hname d' hd' k' hk', hs]

/-- No key is an alias twice. -/
theorem nodup (h : AliasGroups s seen dups) : ((aliasFields dups).map Prod.fst).Nodup := by
  have hkeys : (aliasFields dups).map Prod.fst = dups.flatMap DupInfo.duplicates := by
    rw [aliasFields, List.map_flatMap]
    simp [Function.comp_def]
  rw [hkeys, List.nodup_flatMap]
  refine ⟨fun d hd => (List.nodup_cons.1 (h.once d hd)).2, ?_⟩
  refine (List.pairwise_map.1 h.apart).imp_of_mem fun {d d'} hd hd' hne k hk hk' => hne ?_
  rw [h.eq_of_holds hd hd' (List.mem_cons_of_mem _ hk) (List.mem_cons_of_mem _ hk') rfl]

/-- An alias and the key it stands for. -/
theorem lookup_iff (h : AliasGroups s seen dups) {k : CStr} {j : Json} :
    (aliasFields dups).lookup k = some j ↔
      ∃ d ∈ dups, k ∈ d.duplicates ∧ j = .str d.originalName := by
  constructor
  · intro hk
    obtain ⟨d, hd, hm⟩ := List.mem_flatMap.1 (Json.lookup_mem hk)
    obtain ⟨k', hk', heq⟩ := List.mem_map.1 hm
    cases heq
    exact ⟨d, hd, hk', rfl⟩
  · intro hk
    obtain ⟨d, hd, hk, rfl⟩ := hk
    exact Json.lookup_of_mem h.nodup (List.mem_flatMap.2 ⟨d, hd, List.mem_map.2 ⟨k, hk, rfl⟩⟩)

/-- An original name is nobody's alias. -/
theorem original_notMem (h : AliasGroups s seen dups) {d d' : DupInfo} (hd : d ∈ dups)
    (hd' : d' ∈ dups) : d.originalName ∉ d'.duplicates := by
  intro hk
  cases h.eq_of_holds hd hd' List.mem_cons_self (List.mem_cons_of_mem _ hk) rfl
  exact (List.nodup_cons.1 (h.once d hd)).1 hk

/-- `serialised` with the other keys, and `duplicates`. -/
theorem fields (h : AliasGroups s s.map.keys dups) {ser : List (CStr × Json)}
    (hnd : (ser.map Prod.fst).Nodup)
    (htyped : ∀ k k' e e' p, s.map.lookup k = some e → s.map.lookup k' = some e' →
      e.target = some p → e'.target = some p → e' = e)
    (hser : ∀ k, (∃ item, ser.lookup k = some item) ↔
      ∃ e, s.map.lookup k = some e ∧ e.type ≠ .unknown ∧ ∀ d ∈ dups, k ∉ d.duplicates) :
    Fields False s ser (aliasFields dups) := by
  have hholds : ∀ k p, s.holds k = some p ↔
      ∃ e, s.map.lookup k = some e ∧ e.target = some p := fun k p => Option.bind_eq_some_iff
  have hknown : ∀ e : RpcTypeT, ∀ p, e.target = some p → e.type ≠ .unknown := by
    intro e p hp hty
    cases e <;> cases hty
    cases hp
  refine ⟨hnd, h.nodup, fun k item hk => ?_, fun k j hk => ?_, fun k e he hty => ?_, ?_⟩
  · obtain ⟨e, he, -⟩ := (hser k).1 ⟨item, hk⟩
    exact ⟨e, he⟩
  · obtain ⟨d, hd, hkd, rfl⟩ := h.lookup_iff.1 hk
    obtain ⟨p, hp, hall⟩ := h.held d hd
    obtain ⟨e, he, hep⟩ := (hholds _ _).1 hp
    obtain ⟨e', he', hep'⟩ := (hholds _ _).1 (hall k hkd)
    obtain ⟨item, hitem⟩ := (hser d.originalName).2
      ⟨e, he, hknown e p hep, fun d' hd' => h.original_notMem hd hd'⟩
    refine ⟨?_, d.originalName, item, e, p, rfl, hitem, he, ?_, hep⟩
    · cases hk' : ser.lookup k with
      | none => rfl
      | some i =>
        obtain ⟨-, -, -, hno⟩ := (hser k).1 ⟨i, hk'⟩
        exact absurd hkd (hno d hd)
    · rw [he', htyped _ _ e e' p he he' hep hep']
  · by_cases hdup : ∃ d ∈ dups, k ∈ d.duplicates
    · obtain ⟨d, hd, hk⟩ := hdup
      exact .inr ⟨_, h.lookup_iff.2 ⟨d, hd, hk, rfl⟩⟩
    · refine .inl ((hser k).2 ⟨e, he, hty.resolve_left id, fun d hd hk => hdup ⟨d, hd, hk⟩⟩)
  · intro k k' item item' e e' p hk hk' he he' hp hp'
    -- both are the original name of the group of `p`
    have horig : ∀ k item, ser.lookup k = some item → s.holds k = some p →
        ∃ d ∈ dups, k = d.originalName := by
      intro k item hk hh
      obtain ⟨e, he, -, hno⟩ := (hser k).1 ⟨item, hk⟩
      obtain ⟨d, hd, hkd⟩ := h.cover k (Table.mem_keys_iff.2 ⟨e, he⟩) p hh
      exact ⟨d, hd, (List.mem_cons.1 hkd).resolve_right (hno d hd)⟩
    have hh := (hholds k p).2 ⟨e, he, hp⟩
    have hh' := (hholds k' p).2 ⟨e', he', hp'⟩
    obtain ⟨d, hd, rfl⟩ := horig k item hk hh
    obtain ⟨d', hd', rfl⟩ := horig k' item' hk' hh'
    rw [h.eq_of_holds hd hd' List.mem_cons_self List.mem_cons_self (hh.trans hh'.symm)]

/-- The second loop that fills `duplicates`. -/
theorem foldl_duplicateFields (h : AliasGroups s seen dups) {utf8 : CStr → Bool}
    (hutf8 : ∀ k ∈ seen, utf8 k = true) :
    dups.foldl (duplicateFields utf8) [] = aliasFields dups := by
  have hone : ∀ d ∈ dups, ∀ fs, duplicateFields utf8 fs d =
      (d.duplicates.map fun k => (k, Json.str d.originalName)).foldl
        (fun fs f => Json.setNew utf8 fs f.1 (some f.2)) fs := by
    intro d hd fs
    have hname : Json.string utf8 d.originalName = some (.str d.originalName) := by
      rw [Json.string, if_pos (hutf8 _ (h.visited d hd _ List.mem_cons_self))]
    rw [List.foldl_map, duplicateFields, hname]
  have hall : ∀ (l : List DupInfo) acc, (∀ d ∈ l, d ∈ dups) → l.foldl (duplicateFields utf8) acc =
      (aliasFields l).foldl (fun fs f => Json.setNew utf8 fs f.1 (some f.2)) acc := by
    intro l
    induction l with
    | nil => intro acc _; rfl
    | cons d l ih =>
      intro acc hl
      rw [List.foldl_cons, hone d (hl d List.mem_cons_self),
        ih _ fun d' hd' => hl d' (List.mem_cons_of_mem _ hd'), aliasFields, aliasFields,
        List.flatMap_cons, List.foldl_append]
  rw [hall dups [] fun _ hd => hd, Json.foldl_setNew _ [] (fun f hf => ?_)
    (by rw [List.nil_append]; exact h.nodup), List.nil_append]
  obtain ⟨d, hd, hm⟩ := List.mem_flatMap.1 hf
  obtain ⟨k, hk, rfl⟩ := List.mem_map.1 hm
  exact hutf8 k (h.visited d hd k (List.mem_cons_of_mem _ hk))

end AliasGroups

end FfiRpc
