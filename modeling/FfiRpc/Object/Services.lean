import FfiRpc.Core.Table
import FfiRpc.Core.Fallible
import FfiRpc.Store.Types

/-!
# The service loader

`rpc_init.c`: services are added to a load table, each naming services that must be
loaded before it, and `rpc_service_load_all` runs their init handlers.

* The table is a struct with one struct per service, which nothing else holds; here it
  is `Table CStr LoadEntry`. Keys and names are values in `rpcServiceLoadAll`; in
  `loadAllKeys` the keys are those of the table, which go with their entries. The order in
  which the table and a set of dependencies are walked is a choice of the environment
  (`Walk`).
* The loader removes a service when its handler has run, so it edits the table it walks,
  and reads an entry again after the recursive calls: reading one that is gone is a
  fault (`LoadFault`). Init handlers do not touch the load table.

A table that `rpc_service_add_packet` accepts is ranked: a service only depends on
services of a smaller rank (`Ranked`), since each dependency was in the table when it was
added. `rpcServiceLoad_spec` is the step lemma, one visit; `service_load_all` the run. The
keys of the table are read in time exactly if it is listed dependencies first
(`service_keys_live_iff`).
-/
namespace FfiRpc

/-- mirrors include/ffirpc/rpc_init.h:33-40 (`rpc_service_t`); `dependecies_len` is the
length of the list. A `NULL` handler is `0`. -/
structure RpcService where
  name : CStr
  dependecies : List CStr
  initHandler : Addr
  deriving DecidableEq, Repr

/-- What the table holds for a service: `"init_handler"`, and `"dependencies"` if it has
any. -/
structure LoadEntry where
  initHandler : Addr
  dependencies : Option (Table CStr RpcTypeT)

/-- The load table, and the handlers run so far, with the names logged for them. -/
structure Loading where
  load : Table CStr LoadEntry
  inits : List (CStr × Addr)

inductive LoadFault where
  | released (name : CStr)
  | outOfFuel
  deriving DecidableEq, Repr

/-- The orders in which `rpc_struct_keys` lists the table and the dependencies of a
service. -/
structure Walk where
  table : Table CStr LoadEntry → List CStr → List CStr
  dependencies : Loading → CStr → List CStr → List CStr
  table_perm : ∀ t l, (table t l).Perm l
  dependencies_perm : ∀ st name l, (dependencies st name l).Perm l

/-! ## Adding -/

/-- The loop over the dependencies of a service: one that is not in the table is an
assertion failure, a second mention is ignored by `rpc_struct_set`.
mirrors src/rpc_init.c:51-58 -/
def addDependency (load : Table CStr LoadEntry) (dependencies : Table CStr RpcTypeT)
    (name : CStr) : Option (Table CStr RpcTypeT) :=
  match load.lookup name with
  | none => none
  | some _ =>
    match dependencies.lookup name with
    | some _ => some dependencies
    | none => some (dependencies.insert name (.number (List.replicate 4 0)))

/-- `none` is a failed assertion; a `NULL` handler is not stored.
mirrors src/rpc_init.c:41-63 (`rpc_service_add`) -/
def rpcServiceAdd (load : Table CStr LoadEntry) (service : RpcService) :
    Option (Table CStr LoadEntry) :=
  match load.lookup service.name with
  | some _ => some load
  | none =>
    if service.initHandler = 0 then none
    else if service.dependecies = [] then
      some (load.insert service.name ⟨service.initHandler, none⟩)
    else (service.dependecies.foldlM (addDependency load) ∅).map fun dependencies =>
      load.insert service.name ⟨service.initHandler, some dependencies⟩

/-- mirrors src/rpc_init.c:64-68 (`rpc_service_add_packet`) -/
def rpcServiceAddPacket (load : Table CStr LoadEntry) (services : List RpcService) :
    Option (Table CStr LoadEntry) :=
  services.foldlM rpcServiceAdd load

/-! ## Loading -/

/-- `rpc_struct_keys(dependencies)`, none where the service has no such entry. -/
def LoadEntry.keys (e : LoadEntry) : List CStr := (e.dependencies.map AList.keys).getD []

/-- The end of `rpc_service_load`: the handler is read from the entry, which the loads of
the dependencies may have released, and run; then the service leaves the table.
mirrors src/rpc_init.c:81-87 -/
def runInit (st : Loading) (name : CStr) : Except LoadFault Loading :=
  match st.load.lookup name with
  | none => .error (.released name)
  | some e => .ok ⟨st.load.erase name, st.inits ++ [(name, e.initHandler)]⟩

/-- mirrors src/rpc_init.c:70-89 (`rpc_service_load`); the number bounds the recursion. -/
def rpcServiceLoad (W : Walk) : Nat → Loading → CStr → Except LoadFault Loading
  | 0, _, _ => .error .outOfFuel
  | n + 1, st, name =>
    match st.load.lookup name with
    | none => .ok st
    | some current => do
      let st1 ← (W.dependencies st name current.keys).foldlM (rpcServiceLoad W n) st
      runInit st1 name

/-- mirrors src/rpc_init.c:91-98 (`rpc_service_load_all`): the keys are listed once. -/
def rpcServiceLoadAll (W : Walk) (n : Nat) (st : Loading) : Except LoadFault Loading :=
  (W.table st.load st.load.keys).foldlM (rpcServiceLoad W n) st

/-- One turn of `rpc_service_load_all`, with the key read where it is: `rpc_struct_keys` gives
the keys of the table itself, and the removal of an entry releases its key.
mirrors src/rpc_init.c:94-96 -/
def loadKey (W : Walk) (n : Nat) (st : Loading) (key : CStr) : Except LoadFault Loading :=
  match st.load.lookup key with
  | none => .error (.released key)
  | some _ => rpcServiceLoad W n st key

/-- mirrors src/rpc_init.c:91-98 (`rpc_service_load_all`), with its keys. -/
def loadAllKeys (W : Walk) (n : Nat) (st : Loading) : Except LoadFault Loading :=
  (W.table st.load st.load.keys).foldlM (loadKey W n) st

/-! ## Accepted tables -/

/-- The service that counts under a name is the first one added. -/
def serviceOf (services : List RpcService) (name : CStr) : Option RpcService :=
  services.find? fun s => s.name = name

/-- `a` names `b` among its dependencies. -/
def DependsOn (services : List RpcService) (a b : CStr) : Prop :=
  ∃ s, serviceOf services a = some s ∧ b ∈ s.dependecies

/-- The table of `services`. -/
structure AddedTable (services : List RpcService) (load : Table CStr LoadEntry) : Prop where
  entry : ∀ name e, load.lookup name = some e → ∃ s, serviceOf services name = some s ∧
    e.initHandler = s.initHandler ∧ ∀ d, d ∈ e.keys ↔ d ∈ s.dependecies
  all : ∀ name s, serviceOf services name = some s → ∃ e, load.lookup name = some e

/-- Dependencies are in the table, at a smaller rank. -/
structure Ranked (load : Table CStr LoadEntry) (rank : CStr → Nat) : Prop where
  lt : ∀ name e, load.lookup name = some e → rank name < load.keys.length
  below : ∀ name e d, load.lookup name = some e → d ∈ e.keys →
    (∃ e', load.lookup d = some e') ∧ rank d < rank name

theorem addDependencies_spec {load : Table CStr LoadEntry} {names : List CStr}
    {deps deps' : Table CStr RpcTypeT}
    (h : names.foldlM (addDependency load) deps = some deps') :
    (∀ d ∈ names, ∃ e, load.lookup d = some e) ∧
      ∀ d, d ∈ deps'.keys ↔ d ∈ deps.keys ∨ d ∈ names := by
  induction names generalizing deps with
  | nil =>
    cases h
    exact ⟨nofun, fun d => by simp⟩
  | cons name names ih =>
    rw [List.foldlM_cons] at h
    obtain ⟨deps1, h1, h⟩ := Option.bind_eq_some_iff.1 h
    obtain ⟨hall, hkeys⟩ := ih h
    unfold addDependency at h1
    cases hl : load.lookup name with
    | none => rw [hl] at h1; cases h1
    | some e =>
      simp only [hl] at h1
      have hdeps1 : ∀ d, d ∈ deps1.keys ↔ d = name ∨ d ∈ deps.keys := by
        intro d
        cases hd : deps.lookup name with
        | some v =>
          rw [hd] at h1
          cases h1
          refine ⟨.inr, fun hd' => hd'.elim (fun hn => ?_) id⟩
          rw [hn]
          exact Table.mem_keys_iff.2 ⟨v, hd⟩
        | none =>
          rw [hd] at h1
          cases h1
          simp only [Table.mem_keys_iff, Table.lookup_insert_if]
          by_cases hn : d = name <;> simp [hn]
      refine ⟨fun d hd => ?_, fun d => ?_⟩
      · rcases List.mem_cons.1 hd with hd | hd
        · rw [hd]
          exact ⟨e, hl⟩
        · exact hall d hd
      · rw [hkeys, hdeps1, List.mem_cons]
        tauto

/-- What adding a service that is not in the table does. -/
theorem rpcServiceAdd_new {load load' : Table CStr LoadEntry} {s : RpcService}
    (hnone : load.lookup s.name = none) (h : rpcServiceAdd load s = some load') :
    ∃ e, load' = load.insert s.name e ∧ e.initHandler = s.initHandler ∧
      (∀ d, d ∈ e.keys ↔ d ∈ s.dependecies) ∧ ∀ d ∈ s.dependecies, ∃ e', load.lookup d = some e' := by
  unfold rpcServiceAdd at h
  simp only [hnone] at h
  split at h
  · cases h
  · split at h
    · rename_i hnil
      cases h
      rw [hnil]
      exact ⟨_, rfl, rfl, fun d => by simp [LoadEntry.keys], nofun⟩
    · obtain ⟨deps, hdeps, heq⟩ := Option.map_eq_some_iff.1 h
      obtain ⟨hall, hkeys⟩ := addDependencies_spec hdeps
      refine ⟨_, heq.symm, rfl, fun d => ?_, hall⟩
      simp [LoadEntry.keys, hkeys]

theorem serviceOf_snoc (services : List RpcService) (s : RpcService) (name : CStr) :
    serviceOf (services ++ [s]) name =
      (serviceOf services name).or (if s.name = name then some s else none) := by
  unfold serviceOf
  rw [List.find?_append, List.find?_singleton]
  by_cases h : s.name = name <;> simp [h]

/-- A service of an accepted packet depends on earlier ones only. -/
theorem rpcServiceAddPacket_spec {services : List RpcService} {load : Table CStr LoadEntry}
    (h : rpcServiceAddPacket ∅ services = some load) :
    AddedTable services load ∧ ∃ rank, Ranked load rank := by
  induction services using List.reverseRecOn generalizing load with
  | nil =>
    cases h
    exact ⟨⟨nofun, nofun⟩, fun _ => 0, nofun, nofun⟩
  | append_singleton services s ih =>
    unfold rpcServiceAddPacket at h
    rw [List.foldlM_append, Option.bind_eq_bind] at h
    obtain ⟨load1, h1, h⟩ := Option.bind_eq_some_iff.1 h
    rw [List.foldlM_cons, Option.bind_eq_bind] at h
    obtain ⟨load2, h2, h⟩ := Option.bind_eq_some_iff.1 h
    cases h
    obtain ⟨hacc, rank, hrank⟩ := ih h1
    cases hl : load1.lookup s.name with
    | some e0 =>
      -- a name that is taken
      unfold rpcServiceAdd at h2
      simp only [hl] at h2
      cases h2
      refine ⟨⟨fun name e he => ?_, fun name t ht => ?_⟩, rank, hrank⟩
      · obtain ⟨t, ht, hrest⟩ := hacc.entry name e he
        refine ⟨t, ?_, hrest⟩
        rw [serviceOf_snoc, ht]
        rfl
      · rw [serviceOf_snoc] at ht
        cases hold : serviceOf services name with
        | some t' => exact hacc.all name t' hold
        | none =>
          rw [hold, Option.none_or] at ht
          split at ht
          · rename_i hn
            rw [← hn]
            exact ⟨e0, hl⟩
          · cases ht
    | none =>
      obtain ⟨e, heq, hinit, hkeys, hdeps⟩ := rpcServiceAdd_new hl h2
      subst heq
      have hfirst : serviceOf services s.name = none := by
        cases hold : serviceOf services s.name with
        | none => rfl
        | some t =>
          obtain ⟨e', he'⟩ := hacc.all _ t hold
          rw [hl] at he'
          cases he'
      have hne : ∀ d ∈ e.keys, d ≠ s.name := by
        intro d hd hn
        obtain ⟨e', he'⟩ := hdeps d ((hkeys d).1 hd)
        rw [hn, hl] at he'
        cases he'
      have hlen := Table.length_keys_insert_new e hl
      refine ⟨⟨fun name e' he' => ?_, fun name t ht => ?_⟩,
        fun name => if name = s.name then load1.keys.length else rank name,
        fun name e' he' => ?_, fun name e' d he' hd => ?_⟩
      · rw [Table.lookup_insert_if] at he'
        rw [serviceOf_snoc]
        split at he'
        · rename_i hn
          cases he'
          subst hn
          exact ⟨s, by simp [hfirst], hinit, hkeys⟩
        · obtain ⟨t, ht, hrest⟩ := hacc.entry name e' he'
          exact ⟨t, by rw [ht]; rfl, hrest⟩
      · rw [Table.lookup_insert_if]
        rw [serviceOf_snoc] at ht
        split
        · exact ⟨e, rfl⟩
        · rename_i hn
          rw [if_neg (Ne.symm hn), Option.or_none] at ht
          exact hacc.all name t ht
      · rw [Table.lookup_insert_if] at he'
        split
        · omega
        · rename_i hn
          rw [if_neg hn] at he'
          have := hrank.lt name e' he'
          omega
      · rw [Table.lookup_insert_if] at he'
        split at he'
        · rename_i hn
          cases he'
          obtain ⟨e'', he''⟩ := hdeps d ((hkeys d).1 hd)
          rw [Table.lookup_insert_if, if_neg (hne d hd), if_neg (hne d hd), if_pos hn]
          exact ⟨⟨e'', he''⟩, hrank.lt d e'' he''⟩
        · rename_i hn
          obtain ⟨⟨e'', he''⟩, hlt⟩ := hrank.below name e' d he' hd
          have hdn : d ≠ s.name := by
            intro hdn
            rw [hdn, hl] at he''
            cases he''
          rw [Table.lookup_insert_if, if_neg hdn, if_neg hdn, if_neg hn]
          exact ⟨⟨e'', he''⟩, hlt⟩

/-! ## One visit -/

/-- Where a run over `load` stands: the services whose handlers have run are the ones
that have left the table, each after its dependencies. -/
structure Progress (load : Table CStr LoadEntry) (st : Loading) : Prop where
  rest : ∀ name e, st.load.lookup name = some e → load.lookup name = some e
  once : (st.inits.map Prod.fst).Nodup
  ran : ∀ name init, (name, init) ∈ st.inits ↔
    st.load.lookup name = none ∧ ∃ e, load.lookup name = some e ∧ e.initHandler = init
  after : ∀ pre name init post e, st.inits = pre ++ (name, init) :: post →
    load.lookup name = some e → ∀ d ∈ e.keys, d ∈ pre.map Prod.fst

/-- A call leaves the services above a rank alone. -/
def Untouched (rank : CStr → Nat) (r : Nat) (st st' : Loading) : Prop :=
  ∀ name, r < rank name → st'.load.lookup name = st.load.lookup name

/-- A call takes services out of the table and adds none. -/
def Fewer (st st' : Loading) : Prop :=
  ∀ name, st.load.lookup name = none → st'.load.lookup name = none

section
variable {W : Walk} {load : Table CStr LoadEntry} {rank : CStr → Nat} {st : Loading}

theorem Progress.gone (h : Progress load st) {name : CStr} :
    name ∈ st.inits.map Prod.fst ↔ st.load.lookup name = none ∧ ∃ e, load.lookup name = some e := by
  rw [List.mem_map]
  constructor
  · intro hm
    obtain ⟨⟨name', init⟩, hm, rfl⟩ := hm
    obtain ⟨hnone, e, he, -⟩ := (h.ran name' init).1 hm
    exact ⟨hnone, e, he⟩
  · intro hg
    obtain ⟨hnone, e, he⟩ := hg
    exact ⟨(name, e.initHandler), (h.ran _ _).2 ⟨hnone, e, he, rfl⟩, rfl⟩

/-- Running the handler of a service whose dependencies have run. -/
theorem runInit_spec (h : Progress load st) {name : CStr} {e : LoadEntry}
    (he : st.load.lookup name = some e)
    (hdeps : ∀ d ∈ e.keys, st.load.lookup d = none ∧ ∃ e', load.lookup d = some e') :
    ∃ st', runInit st name = .ok st' ∧ Progress load st' ∧ st'.load.lookup name = none ∧
      ∀ other, other ≠ name → st'.load.lookup other = st.load.lookup other := by
  have hload := h.rest name e he
  have hnew : name ∉ st.inits.map Prod.fst := by
    rw [h.gone, he]
    exact fun hg => by cases hg.1
  refine ⟨⟨st.load.erase name, st.inits ++ [(name, e.initHandler)]⟩, by simp [runInit, he], ⟨fun n' e' he' => ?_, ?_,
    fun n' init => ?_, fun pre n' init post e' hsplit he' d hd => ?_⟩, AList.lookup_erase .., fun other ho => AList.lookup_erase_ne ho⟩
  · exact h.rest n' e' (Table.of_lookup_erase he').2
  · rw [List.map_append, List.nodup_append]
    refine ⟨h.once, by simp, ?_⟩
    simp only [List.map_cons, List.map_nil, List.mem_singleton]
    rintro a ha b rfl hab
    exact hnew (hab ▸ ha)
  · simp only [List.mem_append, List.mem_singleton, Prod.mk.injEq, h.ran, Table.lookup_erase_if]
    by_cases hn : n' = name
    · subst hn
      simp [he, hload, eq_comm]
    · simp [hn]
  · rcases List.append_eq_append_iff.1 hsplit with ⟨as, has, has'⟩ | ⟨as, has, has'⟩
    · -- the service is the new one
      cases as with
      | nil =>
        simp only [List.append_nil, List.nil_append] at has has'
        cases has'
        rw [hload] at he'
        cases he'
        rw [has]
        exact h.gone.2 (hdeps d hd)
      | cons a as =>
        simp at has'
    · cases as with
      | nil =>
        simp only [List.append_nil, List.nil_append] at has has'
        cases has'
        rw [hload] at he'
        cases he'
        rw [← has]
        exact h.gone.2 (hdeps d hd)
      | cons a as =>
        rw [List.cons_append] at has'
        cases has'
        exact h.after pre n' init as e' has he' d hd

theorem rpcServiceLoad_spec (W : Walk) (hrank : Ranked load rank) (n : Nat) {st : Loading}
    (h : Progress load st) {name : CStr} (hin : ∃ e, load.lookup name = some e) (hn : rank name < n) :
    ∃ st', rpcServiceLoad W n st name = .ok st' ∧ Progress load st' ∧
      st'.load.lookup name = none ∧ Untouched rank (rank name) st st' ∧ Fewer st st' := by
  induction n generalizing st name with
  | zero => exact absurd hn (Nat.not_lt_zero _)
  | succ n ih =>
    obtain ⟨e, he⟩ := hin
    cases hl : st.load.lookup name with
    | none =>
      refine ⟨st, by simp [rpcServiceLoad, hl], h, hl, fun _ _ => rfl, fun _ hg => hg⟩
    | some current =>
      have hcur := h.rest name current hl
      -- the dependencies; the entry of the service itself stays
      let I : List CStr → Loading → Prop := fun done st' => Progress load st' ∧
        (∀ d ∈ done, st'.load.lookup d = none) ∧ st'.load.lookup name = some current ∧
        Untouched rank (rank name) st st' ∧ Fewer st st'
      obtain ⟨st1, hloop, hprog, hdone, hkept, hhigh, hfewer⟩ := foldlM_inv
        (f := rpcServiceLoad W n) I (W.dependencies st name current.keys) [] st
        ⟨h, nofun, hl, fun _ _ => rfl, fun _ hg => hg⟩ (by
          intro done st' d hd hI
          obtain ⟨hprog, hdone, hkept, hhigh, hfewer⟩ := hI
          rw [(W.dependencies_perm ..).mem_iff] at hd
          obtain ⟨hdin, hlt⟩ := hrank.below name current d hcur hd
          obtain ⟨st'', hok, hprog', hgone, hhigh', hfewer'⟩ := ih hprog hdin (by omega)
          refine ⟨st'', hok, hprog', fun d' hd' => ?_, ?_, fun other ho => ?_, fun other ho => ?_⟩
          · rcases List.mem_cons.1 hd' with hd' | hd'
            · rw [hd']
              exact hgone
            · exact hfewer' d' (hdone d' hd')
          · rw [hhigh' name hlt, hkept]
          · rw [hhigh' other (by omega), hhigh other ho]
          · exact hfewer' other (hfewer other ho))
      have hdeps : ∀ d ∈ current.keys, st1.load.lookup d = none ∧ ∃ e', load.lookup d = some e' := by
        intro d hd
        refine ⟨hdone d ?_, (hrank.below name current d hcur hd).1⟩
        rw [List.append_nil, List.mem_reverse, (W.dependencies_perm ..).mem_iff]
        exact hd
      obtain ⟨st2, hrun, hprog2, hgone, hsame⟩ := runInit_spec hprog hkept hdeps
      refine ⟨st2, ?_, hprog2, hgone, fun other ho => ?_, fun other ho => ?_⟩
      · simp only [rpcServiceLoad, hl, hloop]
        exact hrun
      · rw [hsame other (by rintro rfl; omega), hhigh other ho]
      · by_cases hn' : other = name
        · rw [hn']
          exact hgone
        · rw [hsame other hn']
          exact hfewer other ho

/-- More fuel than needed makes no difference. -/
theorem rpcServiceLoad_mono {n m : Nat} (hnm : n ≤ m) {st st' : Loading} {name : CStr}
    (h : rpcServiceLoad W n st name = .ok st') : rpcServiceLoad W m st name = .ok st' := by
  induction n generalizing m st st' name with
  | zero => cases h
  | succ n ih =>
    obtain ⟨m, rfl⟩ : ∃ k, m = k + 1 := ⟨m - 1, by omega⟩
    unfold rpcServiceLoad at h ⊢
    cases hl : st.load.lookup name with
    | none =>
      rw [hl] at h
      exact h
    | some current =>
      simp only [hl] at h ⊢
      obtain ⟨st1, hloop, hrun⟩ := bind_eq_ok.1 h
      have hloop' := foldlM_congr_ok (g := rpcServiceLoad W m) (fun s k s' => ih (by omega)) hloop
      rw [hloop']
      exact hrun

/-! ## The whole table -/

/-- In a run, what a service depends on indirectly has run before it as well. -/
theorem Progress.after_all {services : List RpcService} (hacc : AddedTable services load)
    (h : Progress load st) {a b : CStr} (hab : Relation.TransGen (DependsOn services) a b) :
    ∀ pre init post, st.inits = pre ++ (a, init) :: post → b ∈ pre.map Prod.fst := by
  have hone : ∀ a b, DependsOn services a b → ∀ pre init post,
      st.inits = pre ++ (a, init) :: post → b ∈ pre.map Prod.fst := by
    intro a b hab pre init post hsplit
    obtain ⟨s, hs, hb⟩ := hab
    obtain ⟨e, he⟩ := hacc.all a s hs
    obtain ⟨s', hs', -, hkeys⟩ := hacc.entry a e he
    rw [hs] at hs'
    cases hs'
    exact h.after pre a init post e hsplit he b ((hkeys b).2 hb)
  induction hab using Relation.TransGen.head_induction_on with
  | single hab => exact hone _ _ hab
  | @head a' c' hac _ ih =>
    intro pre init post hsplit
    -- the intermediate service splits the prefix
    obtain ⟨⟨c, init'⟩, hc, rfl⟩ := List.mem_map.1 (hone _ _ hac pre init post hsplit)
    obtain ⟨pre1, post1, hpre⟩ := List.append_of_mem hc
    have hb := ih pre1 init' (post1 ++ (a', init) :: post) (by rw [hsplit, hpre]; simp)
    rw [hpre, List.map_append]
    exact List.mem_append_left _ hb

theorem rpcServiceLoadAll_spec (W : Walk) (hrank : Ranked load rank) :
    ∃ st', (∀ n, load.keys.length ≤ n → rpcServiceLoadAll W n ⟨load, []⟩ = .ok st') ∧
      Progress load st' ∧ st'.load = ∅ := by
  have hstart : Progress load ⟨load, []⟩ :=
    ⟨fun _ _ he => he, List.nodup_nil, fun name init => by simp +contextual, by simp⟩
  let I : List CStr → Loading → Prop := fun done st' => Progress load st' ∧
    ∀ name ∈ done, st'.load.lookup name = none
  obtain ⟨st', hloop, hprog, hdone⟩ := foldlM_inv (f := rpcServiceLoad W load.keys.length) I
    (W.table load load.keys) [] ⟨load, []⟩ ⟨hstart, nofun⟩ (by
      intro done st1 name hname hI
      obtain ⟨hprog, hdone⟩ := hI
      rw [(W.table_perm ..).mem_iff] at hname
      obtain ⟨e, he⟩ := Table.mem_keys_iff.1 hname
      obtain ⟨st2, hok, hprog2, hgone, -, hfewer⟩ :=
        rpcServiceLoad_spec W hrank load.keys.length hprog ⟨e, he⟩ (hrank.lt name e he)
      refine ⟨st2, hok, hprog2, fun other ho => ?_⟩
      rcases List.mem_cons.1 ho with ho | ho
      · rw [ho]
        exact hgone
      · exact hfewer other (hdone other ho))
  refine ⟨st', fun n hn => ?_, hprog, ?_⟩
  · exact foldlM_congr_ok (fun s k s' => rpcServiceLoad_mono hn) hloop
  · -- what is left would be a service of the table that was not visited
    refine AList.ext ?_
    cases hentries : st'.load.entries with
    | nil => rfl
    | cons x xs =>
      exfalso
      have hx : st'.load.lookup x.1 = some x.2 :=
        Table.mem_entries_iff.1 (by rw [hentries]; exact List.mem_cons_self)
      have hmem : x.1 ∈ load.keys := Table.mem_keys_iff.2 ⟨_, hprog.rest _ _ hx⟩
      have := hdone x.1 (by
        rw [List.append_nil, List.mem_reverse, (W.table_perm ..).mem_iff]
        exact hmem)
      rw [hx] at this
      cases this

/-- Loading an accepted packet, whatever the orders: it ends, with the table empty, and
has run the handler of each service name once, that of the first service of the name,
after the handlers of all its dependencies. -/
theorem service_load_all {services : List RpcService} {load : Table CStr LoadEntry}
    (h : rpcServiceAddPacket ∅ services = some load) (W : Walk) :
    ∃ inits, (∀ n, load.keys.length ≤ n → rpcServiceLoadAll W n ⟨load, []⟩ = .ok ⟨∅, inits⟩) ∧
      (inits.map Prod.fst).Nodup ∧
      (∀ name init, (name, init) ∈ inits ↔
        ∃ s, serviceOf services name = some s ∧ s.initHandler = init) ∧
      ∀ a b, Relation.TransGen (DependsOn services) a b → ∀ pre init post,
        inits = pre ++ (a, init) :: post → b ∈ pre.map Prod.fst := by
  obtain ⟨hacc, rank, hrank⟩ := rpcServiceAddPacket_spec h
  obtain ⟨⟨rest, inits⟩, hrun, hprog, rfl⟩ := rpcServiceLoadAll_spec W hrank
  refine ⟨inits, hrun, hprog.once, fun name init => ?_, fun a b hab => hprog.after_all hacc hab⟩
  rw [hprog.ran]
  constructor
  · intro hran
    obtain ⟨-, e, he, hinit⟩ := hran
    obtain ⟨s, hs, hse, -⟩ := hacc.entry name e he
    exact ⟨s, hs, by rw [← hse, hinit]⟩
  · intro hs
    obtain ⟨s, hs, hinit⟩ := hs
    obtain ⟨e, he⟩ := hacc.all name s hs
    obtain ⟨s', hs', hse, -⟩ := hacc.entry name e he
    rw [hs] at hs'
    cases hs'
    exact ⟨rfl, e, he, by rw [hse, hinit]⟩

/-- The packet of `rpc_init`, with the server mentioned twice and walked last to first.
mirrors src/rpc_init.c:102-107 (`init_rpc_modules`) -/
theorem service_load_all_rpc_init : ∃ (load : Table CStr LoadEntry) (W : Walk),
    rpcServiceAddPacket ∅ [⟨ascii "rpc_object", [], 1⟩,
      ⟨ascii "rpc_server", [ascii "rpc_object"], 2⟩, ⟨ascii "rpc_server", [], 3⟩] = some load ∧
    ∃ inits, rpcServiceLoadAll W 2 ⟨load, []⟩ = .ok ⟨∅, inits⟩ ∧
      (ascii "rpc_object", 1) ∈ inits := by
  obtain ⟨load, h, hlen⟩ : ∃ load, rpcServiceAddPacket ∅ [⟨ascii "rpc_object", [], 1⟩,
      ⟨ascii "rpc_server", [ascii "rpc_object"], 2⟩, ⟨ascii "rpc_server", [], 3⟩] = some load ∧
      load.keys.length = 2 := ⟨_, rfl, rfl⟩
  let W : Walk := ⟨fun _ l => l.reverse, fun _ _ l => l, fun _ l => l.reverse_perm, fun _ _ l => .refl l⟩
  obtain ⟨inits, hrun, -, hran, -⟩ := service_load_all h W
  exact ⟨load, W, h, inits, hrun 2 hlen.le, (hran _ _).2 ⟨⟨ascii "rpc_object", [], 1⟩, rfl, rfl⟩⟩

/-! ## The keys of the table -/

/-- The table after a call for `name`: less the service itself and some that it depends on. -/
def Removes (services : List RpcService) (name : CStr) (st st' : Loading) : Prop :=
  ∀ x, st'.load.lookup x = st.load.lookup x ∨
    st'.load.lookup x = none ∧ Relation.ReflTransGen (DependsOn services) name x

theorem Removes.entry {services : List RpcService} {name : CStr} {st' : Loading}
    (h : Removes services name st st') {x : CStr} {e : LoadEntry}
    (hx : st'.load.lookup x = some e) : st.load.lookup x = some e := by
  rcases h x with hsame | ⟨hnone, -⟩
  · rw [← hsame, hx]
  · rw [hx] at hnone
    cases hnone

theorem Removes.trans {services : List RpcService} {name d : CStr} {st1 st2 : Loading}
    (h : Removes services name st st1) (h' : Removes services d st1 st2)
    (hd : Relation.ReflTransGen (DependsOn services) name d) : Removes services name st st2 := by
  intro x
  rcases h' x with hsame | ⟨hnone, hdx⟩
  · rw [hsame]
    exact h x
  · exact .inr ⟨hnone, hd.trans hdx⟩

theorem rpcServiceLoad_removes {services : List RpcService} (hacc : AddedTable services load)
    {n : Nat} {st st' : Loading} {name : CStr}
    (hst : ∀ x e, st.load.lookup x = some e → load.lookup x = some e)
    (h : rpcServiceLoad W n st name = .ok st') : Removes services name st st' := by
  induction n generalizing st st' name with
  | zero => cases h
  | succ n ih =>
    unfold rpcServiceLoad at h
    cases hl : st.load.lookup name with
    | none =>
      rw [hl] at h
      cases h
      exact fun x => .inl rfl
    | some current =>
      simp only [hl] at h
      obtain ⟨st1, hloop, hrun⟩ := bind_eq_ok.1 h
      obtain ⟨s, hs, -, hkeys⟩ := hacc.entry name current (hst name current hl)
      have hdeps : Removes services name st st1 := by
        refine foldlM_ok_of_mem (Removes services name st) _ st st1 (fun s1 d s2 hd hI hok => ?_)
          (fun x => .inl rfl) hloop
        rw [(W.dependencies_perm ..).mem_iff, hkeys] at hd
        exact hI.trans (ih (fun x e hx => hst x e (hI.entry hx)) hok) (.single ⟨s, hs, hd⟩)
      -- then the service itself
      have hself : Removes services name st1 st' := by
        unfold runInit at hrun
        split at hrun
        · cases hrun
        · cases hrun
          intro x
          rw [Table.lookup_erase_if]
          split
          · rename_i hx
            exact .inr ⟨rfl, hx ▸ .refl⟩
          · exact .inl rfl
      exact hdeps.trans hself .refl

/-- The services that have left the table are those of the keys read so far and those they
depend on. -/
structure KeysRead (services : List RpcService) (load : Table CStr LoadEntry) (done : List CStr)
    (st : Loading) : Prop where
  progress : Progress load st
  gone : ∀ x e, load.lookup x = some e →
    (st.load.lookup x = none ↔ ∃ a ∈ done, Relation.ReflTransGen (DependsOn services) a x)

theorem KeysRead.visit {services : List RpcService} (hacc : AddedTable services load)
    (hrank : Ranked load rank) {done : List CStr} (h : KeysRead services load done st) {n : Nat}
    {k : CStr} (hk : ∃ e, load.lookup k = some e) (hn : rank k < n) :
    ∃ st', rpcServiceLoad W n st k = .ok st' ∧ KeysRead services load (k :: done) st' := by
  obtain ⟨st', hok, hprog, hgone, -, hfewer⟩ := rpcServiceLoad_spec W hrank n h.progress hk hn
  refine ⟨st', hok, hprog, fun x e hx => ?_⟩
  constructor
  · intro hnone
    cases hl : st.load.lookup x with
    | none =>
      obtain ⟨a, ha, hax⟩ := (h.gone x e hx).1 hl
      exact ⟨a, List.mem_cons_of_mem _ ha, hax⟩
    | some e' =>
      rcases rpcServiceLoad_removes hacc h.progress.rest hok x with hsame | ⟨-, hdep⟩
      · rw [hnone, hl] at hsame
        cases hsame
      · exact ⟨k, List.mem_cons_self, hdep⟩
  · intro hdep
    obtain ⟨a, ha, hax⟩ := hdep
    rcases List.mem_cons.1 ha with ha | ha
    · rw [ha] at hax
      rcases Relation.reflTransGen_iff_eq_or_transGen.1 hax with hxk | hkx
      · rw [hxk]
        exact hgone
      · -- the dependencies have run before the service
        obtain ⟨⟨k', init⟩, hin, hkk⟩ := List.mem_map.1 (hprog.gone.2 ⟨hgone, hk⟩)
        obtain ⟨pre, post, hsplit⟩ := List.append_of_mem hin
        subst hkk
        have hpre := hprog.after_all hacc hkx pre init post hsplit
        have hran : x ∈ st'.inits.map Prod.fst := by
          rw [hsplit, List.map_append]
          exact List.mem_append_left _ hpre
        exact (hprog.gone.1 hran).1
    · exact hfewer x ((h.gone x e hx).2 ⟨a, ha, hax⟩)

/-- No service comes before one that it depends on. -/
def InOrder (services : List RpcService) (ks : List CStr) : Prop :=
  ks.Pairwise fun a b => ¬ Relation.TransGen (DependsOn services) a b

/-- The loop goes on until it meets a key of a service that is gone. -/
theorem loadKeys_spec (W : Walk) {services : List RpcService} (hacc : AddedTable services load)
    (hrank : Ranked load rank) {n : Nat} (hn : load.keys.length ≤ n) (ks : List CStr) :
    ∀ (done : List CStr) (st : Loading), KeysRead services load done st →
      (∀ k ∈ ks, (∃ e, load.lookup k = some e) ∧ k ∉ done) → ks.Nodup →
      InOrder services done.reverse →
      InOrder services (done.reverse ++ ks) ∧ (∃ st', ks.foldlM (loadKey W n) st = .ok st') ∨
      ¬ InOrder services (done.reverse ++ ks) ∧
        ∃ key, ks.foldlM (loadKey W n) st = .error (.released key) := by
  induction ks with
  | nil =>
    intro done st _ _ _ horder
    rw [List.append_nil]
    exact .inl ⟨horder, st, rfl⟩
  | cons k ks ih =>
    intro done st hv hks hnodup horder
    obtain ⟨⟨e, he⟩, hnew⟩ := hks k List.mem_cons_self
    obtain ⟨hk, hnodup⟩ := List.nodup_cons.1 hnodup
    have hgone := hv.gone k e he
    rw [List.foldlM_cons]
    cases hl : st.load.lookup k with
    | none =>
      obtain ⟨a, ha, hak⟩ := hgone.1 hl
      refine .inr ⟨fun hall => ?_, k, by simp only [loadKey, hl]; rfl⟩
      rcases Relation.reflTransGen_iff_eq_or_transGen.1 hak with hka | hak
      · exact hnew (hka ▸ ha)
      · exact (List.pairwise_append.1 hall).2.2 a (List.mem_reverse.2 ha) k List.mem_cons_self hak
    | some e' =>
      have hrank := hrank.lt k e he
      obtain ⟨st1, hok, hv1⟩ := hv.visit (W := W) (n := n) hacc ‹_› ⟨e, he⟩ (by omega)
      have horder1 : InOrder services (k :: done).reverse := by
        rw [List.reverse_cons]
        refine List.pairwise_append.2 ⟨horder, List.pairwise_singleton _ _, fun a ha b hb hab => ?_⟩
        rw [List.mem_singleton.1 hb] at hab
        have hnone := hgone.2 ⟨a, List.mem_reverse.1 ha, hab.to_reflTransGen⟩
        rw [hl] at hnone
        cases hnone
      have hrest := ih (k :: done) st1 hv1 (fun k' hk' => ⟨(hks k' (List.mem_cons_of_mem _ hk')).1,
        fun hmem => ?_⟩) hnodup horder1
      · have hturn : loadKey W n st k = .ok st1 := by simp only [loadKey, hl, hok]
        rw [hturn]
        rw [List.reverse_cons, List.append_assoc] at hrest
        exact hrest
      · rcases List.mem_cons.1 hmem with hmem | hmem
        · exact hk (hmem ▸ hk')
        · exact (hks k' (List.mem_cons_of_mem _ hk')).2 hmem

/-- Every key that is passed on is one of the table at that moment exactly if the table is
listed with no service before one that it depends on; else the loop reads a released key. -/
theorem service_keys_live_iff {services : List RpcService} {load : Table CStr LoadEntry}
    (h : rpcServiceAddPacket ∅ services = some load) (W : Walk) {n : Nat}
    (hn : load.keys.length ≤ n) :
    ((∃ st', loadAllKeys W n ⟨load, []⟩ = .ok st') ↔ InOrder services (W.table load load.keys)) ∧
    (¬ InOrder services (W.table load load.keys) →
      ∃ key, loadAllKeys W n ⟨load, []⟩ = .error (.released key)) := by
  obtain ⟨hacc, rank, hrank⟩ := rpcServiceAddPacket_spec h
  have hstart : KeysRead services load [] ⟨load, []⟩ := by
    refine ⟨⟨fun _ _ he => he, List.nodup_nil, fun name init => by simp +contextual, by simp⟩,
      fun x e hx => ?_⟩
    rw [hx]
    exact ⟨nofun, fun ⟨a, ha, _⟩ => by cases ha⟩
  have hloop := loadKeys_spec W hacc hrank hn (W.table load load.keys) [] _ hstart
    (fun k hk => ⟨Table.mem_keys_iff.1 ((W.table_perm ..).mem_iff.1 hk), List.not_mem_nil⟩)
    ((W.table_perm ..).nodup_iff.2 load.keys_nodup) List.Pairwise.nil
  rw [List.reverse_nil, List.nil_append] at hloop
  unfold loadAllKeys
  rcases hloop with ⟨horder, hok⟩ | ⟨hno, key, herr⟩
  · exact ⟨iff_of_true hok horder, fun hno => absurd horder hno⟩
  · refine ⟨iff_of_false (fun hok => ?_) hno, fun _ => ⟨key, herr⟩⟩
    obtain ⟨st', hok⟩ := hok
    rw [herr] at hok
    cases hok

/-- The packet of `rpc_init`, listed in the order in which it was added. -/
theorem service_keys_live_rpc_init : ∃ (load : Table CStr LoadEntry) (W : Walk),
    rpcServiceAddPacket ∅ [⟨ascii "rpc_object", [], 1⟩,
      ⟨ascii "rpc_server", [ascii "rpc_object"], 2⟩] = some load ∧
    W.table load load.keys = [ascii "rpc_object", ascii "rpc_server"] ∧
    ∃ st', loadAllKeys W 2 ⟨load, []⟩ = .ok st' := by
  obtain ⟨load, h, hlen, hkeys⟩ : ∃ load, rpcServiceAddPacket ∅ [⟨ascii "rpc_object", [], 1⟩,
      ⟨ascii "rpc_server", [ascii "rpc_object"], 2⟩] = some load ∧ load.keys.length = 2 ∧
      load.keys.reverse = [ascii "rpc_object", ascii "rpc_server"] := ⟨_, rfl, rfl, by decide +kernel⟩
  let W : Walk := ⟨fun _ l => l.reverse, fun _ _ l => l, fun _ l => l.reverse_perm, fun _ _ l => .refl l⟩
  refine ⟨load, W, h, hkeys, (service_keys_live_iff h W hlen.le).1.2 ?_⟩
  have horder : InOrder [⟨ascii "rpc_object", [], 1⟩, ⟨ascii "rpc_server", [ascii "rpc_object"], 2⟩]
      [ascii "rpc_object", ascii "rpc_server"] := by
    refine List.pairwise_pair.2 fun hdep => ?_
    -- the first service has no dependencies
    obtain ⟨b, hb, -⟩ := Relation.TransGen.head'_iff.1 hdep
    obtain ⟨s, hs, hmem⟩ := hb
    cases hs
    cases hmem
  rw [← hkeys] at horder
  exact horder

/-- "b" depends on "a" and is listed first: the loop goes on to the key of the service that
"b" had loaded. -/
theorem service_key_released : ∃ (load : Table CStr LoadEntry) (W : Walk),
    rpcServiceAddPacket ∅ [⟨ascii "a", [], 1⟩, ⟨ascii "b", [ascii "a"], 2⟩] = some load ∧
    W.table load load.keys = [ascii "b", ascii "a"] ∧
    loadAllKeys W 2 ⟨load, []⟩ = .error (.released (ascii "a")) := by
  let W : Walk := ⟨fun _ l => l, fun _ _ l => l, fun _ l => .refl l, fun _ _ l => .refl l⟩
  exact ⟨_, W, rfl, by decide +kernel, rfl⟩

end

end FfiRpc
