import FfiRpc.Wire.Receive
import FfiRpc.Wire.Send

/-!
# Structs of one field

What a struct with at most one field becomes on the wire, followed through the code
of both sides (`serialize_single`, `deserialize_single`). Nothing is assumed about
the states: neither side's tracker has to be in order, and what the field holds may
be nested in any way, as long as the calls return.

The document of the nested object need not represent it; it is only `Emitted`,
of the form every call of `rpc_struct_serialize` gives its document
(`serialize_emitted`). Decoding such a document leaves all objects alone that there
were before (`decode_survives`).
-/
namespace FfiRpc

open State

/-! ## The form of a document

`json_object_set_new` either appends the key or overwrites it in place, and does
nothing for a value it was not given or a key that is not UTF-8. `lookup_setNew` says
all of it; `mem_setNew` is what the invariants over the fields need. -/

namespace Json

/-- A field is an old one or holds the value just set. -/
theorem mem_setNew {utf8 : CStr → Bool} {fs : List (CStr × Json)} {k : CStr} {v : Option Json}
    {f : CStr × Json} (h : f ∈ setNew utf8 fs k v) : f ∈ fs ∨ v = some f.2 := by
  unfold setNew at h
  split at h
  · exact .inl h
  · split at h
    · split at h
      · obtain ⟨g, hg, hfg⟩ := List.mem_map.1 h
        split at hfg
        · exact .inr (by rw [← hfg])
        · exact .inl (hfg ▸ hg)
      · rcases List.mem_append.1 h with h | h
        · exact .inl h
        · exact .inr (by rw [List.mem_singleton.1 h])
    · exact .inl h

/-- Overwriting a key that is there changes what it holds and nothing else. -/
theorem lookup_replace {fs : List (CStr × Json)} {k : CStr} {v : Json} (hk : k ∈ fs.map Prod.fst)
    (k' : CStr) : (fs.map fun f => if f.1 = k then (k, v) else f).lookup k' =
      if k' = k then some v else fs.lookup k' := by
  induction fs with
  | nil => cases hk
  | cons f fs ih =>
    rw [List.map_cons, List.lookup_cons, List.lookup_cons]
    by_cases hf : f.1 = k
    · rw [if_pos hf]
      by_cases hk' : k' = k
      · simp [hk']
      · have hne : k' ≠ f.1 := fun hc => hk' (hc.trans hf)
        rw [beq_eq_false_iff_ne.2 hk', beq_eq_false_iff_ne.2 hne, if_neg hk']
        -- the key may stand once more further on, or not at all: `map` rewrites every occurrence
        by_cases hmem : k ∈ fs.map Prod.fst
        · rw [ih hmem, if_neg hk']
        · have hsame : ∀ g ∈ fs, (if g.1 = k then (k, v) else g) = g := fun g hg =>
            if_neg fun (hg1 : g.1 = k) => hmem (hg1 ▸ List.mem_map_of_mem hg)
          rw [List.map_congr_left hsame, List.map_id']
    · have hmem : k ∈ fs.map Prod.fst :=
        (List.mem_cons.1 hk).resolve_left fun hc => hf hc.symm
      rw [if_neg hf, ih hmem]
      by_cases hk' : k' = k
      · simp [hk', beq_eq_false_iff_ne.2 (Ne.symm hf)]
      · rw [if_neg hk', if_neg hk']

theorem lookup_setNew (utf8 : CStr → Bool) (fs : List (CStr × Json)) (k : CStr) (v : Option Json)
    (k' : CStr) : (setNew utf8 fs k v).lookup k' =
      if k' = k ∧ utf8 k = true ∧ v.isSome = true then v else fs.lookup k' := by
  unfold setNew
  cases v with
  | none => simp
  | some v =>
    by_cases hu : utf8 k = true
    · simp only [hu, if_true, Option.isSome_some, and_true]
      split
      · rename_i hmem
        exact lookup_replace hmem k'
      · rename_i hmem
        exact lookup_concat hmem
    · simp [hu]

end Json

/-- The root of a document of the serialiser. -/
structure Root (j : Json) (ser dup : List (CStr × Json)) : Prop where
  type : j.get (ascii "type") = some (.str (ascii "RPC_struct"))
  serialised : j.get (ascii "serialised") = some (.obj ser)
  duplicates : j.get (ascii "duplicates") = some (.obj dup)

/-- A document or an item of the form the serialiser writes: an object carries the type
name of its kind, and in a struct's own document every serialised field is again of this
form. Nothing is said of the ID or of what the list of duplicates holds. -/
inductive Emitted : Json → Prop
  | int {i} : Emitted (.int i)
  | real {bits} : Emitted (.real bits)
  | str {s} : Emitted (.str s)
  | sizedbuf (b) : Emitted (rpcSizedbufSerialize b)
  | function (f) : Emitted (rpcFunctionSerialize f)
  | struct {fs ser dup} : Root (.obj fs) ser dup → (∀ f ∈ ser, Emitted f.2) → Emitted (.obj fs)

section Serialize
variable {E : Env} {utf8 : CStr → Bool} {st st' : State}

/-- The four fields a document is built from, read back. Their names are ASCII, so the
encoder takes them whatever it takes for UTF-8 beyond that. -/
theorem root_setNew (hascii : AsciiValid utf8) (id : Option Json) (ser dup : List (CStr × Json)) :
    Root (.obj (Json.setNew utf8 (Json.setNew utf8 (Json.setNew utf8 (Json.setNew utf8 []
      (ascii "ID") id) (ascii "type") (Json.string utf8 (ascii "RPC_struct")))
      (ascii "serialised") (some (.obj ser))) (ascii "duplicates") (some (.obj dup)))) ser dup := by
  have hvalid : ∀ k ∈ [ascii "type", ascii "serialised", ascii "duplicates", ascii "RPC_struct"],
      utf8 k = true := by
    have hlow : ∀ k ∈ [ascii "type", ascii "serialised", ascii "duplicates", ascii "RPC_struct"],
        ∀ b ∈ k, b < 128 := by decide +kernel
    exact fun k hk => hascii k (hlow k hk)
  have htype : utf8 (ascii "type") = true := hvalid _ (by simp)
  have hser : utf8 (ascii "serialised") = true := hvalid _ (by simp)
  have hdup : utf8 (ascii "duplicates") = true := hvalid _ (by simp)
  have hname : utf8 (ascii "RPC_struct") = true := hvalid _ (by simp)
  have hts : ascii "type" ≠ ascii "serialised" := by decide +kernel
  have htd : ascii "type" ≠ ascii "duplicates" := by decide +kernel
  have hsd : ascii "serialised" ≠ ascii "duplicates" := by decide +kernel
  refine ⟨?_, ?_, ?_⟩
  · simp [Json.get, Json.lookup_setNew, htype, hname, hts, htd, Json.string]
  · simp [Json.get, Json.lookup_setNew, hser, hsd]
  · simp [Json.get, Json.lookup_setNew, hdup]

/-- A real number is written as a JSON real or not at all. -/
theorem serializeReal_eq_some {raw : List UInt8} {item : Json} (h : serializeReal raw = some item) :
    ∃ bits, item = .real bits := by
  simp only [serializeReal] at h
  generalize (if raw.length = 4 then toLE 8 (widenFloat (ofLE raw))
    else if raw.length = 8 then raw else toLE 8 0) = bits at h
  split at h
  · cases h
    exact ⟨bits, rfl⟩
  · cases h

/-- One element, with the recursive call's documents already known to be of the form. -/
theorem serializeElement_emitted {rec : State → Addr → Except Fault (State × Json)}
    (hrec : ∀ st p st' j, rec st p = .ok (st', j) → Emitted j) {e : RpcTypeT} {item : Option Json}
    (hok : serializeElement utf8 rec st e = .ok (st', item)) : ∀ j, item = some j → Emitted j := by
  intro j hj
  subst hj
  cases e with
  | none => cases hok
  | unknown p => cases hok
  | number raw =>
    cases hok
    exact .int
  | real raw =>
    have hreal : serializeReal raw = some j := congrArg Prod.snd (Except.ok.inj hok)
    obtain ⟨bits, rfl⟩ := serializeReal_eq_some hreal
    exact .real
  | string q t =>
    have hstring : Json.string utf8 t = some j := congrArg Prod.snd (Except.ok.inj hok)
    unfold Json.string at hstring
    split at hstring
    · cases hstring
      exact .str
    · cases hstring
  | struct p =>
    obtain ⟨⟨st1, j1⟩, hp, hok⟩ := bind_eq_ok.1 hok
    cases hok
    exact hrec st p _ _ hp
  | sizedbuf p =>
    simp only [serializeElement] at hok
    split at hok
    · cases hok
      exact .sizedbuf _
    · cases hok
  | function p =>
    simp only [serializeElement] at hok
    split at hok
    · cases hok
      exact .function _
    · cases hok

/-- Every document of a call is of this form. By induction on the depth allowed; within
a call only the loop over the keys writes fields, one item for each key at most. -/
theorem serialize_emitted (hascii : AsciiValid utf8) (n : Nat) :
    ∀ st S st' j, rpcStructSerialize E utf8 n st S = .ok (st', j) →
      ∃ fs ser dup, j = .obj fs ∧ Root (.obj fs) ser dup ∧ ∀ f ∈ ser, Emitted f.2 := by
  induction n with
  | zero => exact fun _ _ _ _ hok => by cases hok
  | succ n ih =>
    intro st S st' j hok
    unfold rpcStructSerialize at hok
    obtain ⟨⟨st1, d⟩, -, hok⟩ := bind_eq_ok.1 hok
    obtain ⟨dups, -, hok⟩ := bind_eq_ok.1 hok
    obtain ⟨st2, -, hok⟩ := bind_eq_ok.1 hok
    obtain ⟨st3, -, hok⟩ := bind_eq_ok.1 hok
    obtain ⟨⟨st4, ser⟩, hloop, hok⟩ := bind_eq_ok.1 hok
    obtain ⟨st5, -, hok⟩ := bind_eq_ok.1 hok
    cases hok
    refine ⟨_, _, _, rfl, root_setNew hascii (Json.string utf8 (rpcStructIdGet st3 S)) ser
      (dups.foldl (duplicateFields utf8) []), ?_⟩
    -- the loop's invariant is about the fields written so far, not about the store
    refine foldlM_ok (fun acc : State × List (CStr × Json) => ∀ f ∈ acc.2, Emitted f.2)
      (fun acc key acc' hI hok => ?_) _ (st3, []) (st4, ser)
      (fun f hf => absurd hf List.not_mem_nil) hloop
    obtain ⟨⟨st1, item⟩, hel, hok⟩ := bind_eq_ok.1 hok
    cases hok
    intro f hf
    rcases Json.mem_setNew hf with hf | hf
    · exact hI f hf
    · refine serializeElement_emitted (fun st p st' j hp => ?_) hel f.2 hf
      obtain ⟨fs, ser', dup', rfl, hroot, hser⟩ := ih st p st' j hp
      exact .struct hroot hser

end Serialize

/-! ## Decoding it

A decoder only creates objects and writes to those it created: `Keeps X st st'` says
that every object of `st` outside `X` is in `st'` as it was (the counts are the
tracker's, which `Keeps` does not look at). Each piece of the decoder gets one lemma of
this kind, and `decode_survives` is the induction over both of its mutually recursive
functions. -/

section Decode
variable {E : Env} {st st' : State}

/-- A new object lies at an address that held none. -/
theorem keeps_create (E : Env) (st : State) (o : Obj) : Keeps ∅ st (st.setObj (E.malloc st) o) := by
  intro a x _ hx
  refine ⟨x, ?_, Obj.less_refl fun _ => not_false⟩
  rw [lookup_setObj, if_neg]
  · exact hx
  · intro ha
    rw [ha, malloc_dead] at hx; cases hx

theorem keeps_setObj (st : State) (S : Addr) (o : Obj) : Keeps {S} st (st.setObj S o) := by
  intro a x ha hx
  refine ⟨x, ?_, Obj.less_refl fun _ => not_false⟩
  rw [lookup_setObj, if_neg (show a ≠ S from ha)]
  exact hx

/-- `rpc_struct_set_internal` writes to the struct it is called on; tracking the element
changes the tracker only. -/
theorem setInternal_keeps {S : Addr} {key : CStr} {e : RpcTypeT}
    (hok : Prod.fst <$> rpcStructSetInternal E st S key e = .ok st') : Keeps {S} st st' := by
  obtain ⟨ret, hok⟩ := map_fst_eq_ok hok
  unfold rpcStructSetInternal at hok
  split at hok
  · cases hok
  · split at hok
    · cases hok
      exact .refl {S} st
    · split at hok
      · cases hok
        exact .refl {S} st
      · cases hok
        have hheap : (trackElement st S key e).heap = st.heap := heap_trackElement S key e
        intro a o ha ho
        exact keeps_setObj (trackElement st S key e) S _ a o ha (by rw [hheap]; exact ho)

/-- A setter whose value is made without touching what is there. -/
theorem setWith_keeps {S : Addr} {key : CStr} {value : State → Except Fault (State × RpcTypeT)}
    (hvalue : ∀ r, value st = .ok r → Keeps ∅ st r.1) (hok : setWith E st S key value = .ok st') :
    Keeps {S} st st' := by
  unfold setWith at hok
  split at hok
  · cases hok
    exact .refl {S} st
  · obtain ⟨r, hr, hok⟩ := bind_eq_ok.1 hok
    exact ((hvalue r hr).mono (Set.empty_subset _)).trans (setInternal_keeps hok)

theorem sizedbuf_keeps {b : RpcSizedbuf} {r : State × Addr}
    (hok : rpcSizedbufDeserialize E st (rpcSizedbufSerialize b) = .ok r) :
    Keeps ∅ st r.1 ∧ r.2 = E.malloc st := by
  cases hok
  exact ⟨keeps_create E st _, rfl⟩

/-- A function is created empty and filled in after: two writes to one new address. -/
theorem function_keeps {f : RpcFunction} {r : State × Addr}
    (hok : rpcFunctionDeserialize E st (rpcFunctionSerialize f) = .ok r) :
    Keeps ∅ st r.1 ∧ r.2 = E.malloc st := by
  cases hok
  refine ⟨?_, rfl⟩
  have hcreate := (keeps_create E st (.function ⟨none, 0, 0⟩)).mono (Set.empty_subset {E.malloc st})
  exact (hcreate.trans (keeps_setObj _ (E.malloc st) _)).of_dead fun a ha => by
    rw [Set.mem_singleton_iff.1 ha, malloc_dead]

/-- Everything that was there before is still there: a decoded struct touches nothing, an
item stored under a key touches the struct it is stored in. -/
theorem decode_survives (E : Env) (n : Nat) :
    (∀ st j ser dup r, Root j ser dup → (∀ f ∈ ser, Emitted f.2) →
      structDeserialize E n st j = .ok r → Keeps ∅ st r.1 ∧ r.2 = E.malloc st) ∧
    ∀ st S key item st', Emitted item → itemParse E n st S key item = .ok st' →
      Keeps {S} st st' := by
  induction n with
  | zero =>
    refine ⟨fun st j ser dup r _ _ hok => ?_, fun st S key item st' _ hok => ?_⟩
    · unfold structDeserialize at hok; cases hok
    · unfold itemParse at hok; cases hok
  | succ n ih =>
    obtain ⟨ihstruct, ihitem⟩ := ih
    refine ⟨fun st j ser dup r hroot hser hok => ?_, fun st S key item st' hitem hok => ?_⟩
    · rw [structDeserialize_eq] at hok
      obtain ⟨st1, hid, hok⟩ := bind_eq_ok.1 hok
      have hst1 := (idPhase_spec E st j).of_ok hid
      subst hst1
      simp only [parsePhase, hroot.type, Json.stringValue, if_pos, hroot.serialised,
        hroot.duplicates, Option.map_some, Option.getD_some, Json.fields] at hok
      obtain ⟨st3, hparse, hok⟩ := bind_eq_ok.1 hok
      obtain ⟨st4, hlink, hok⟩ := bind_eq_ok.1 hok
      cases hok
      -- first the fields, then the aliases; both loops write to the new struct only
      have h3 : Keeps {E.malloc st} (started E st (idField E st j)) st3 :=
        foldlM_ok_of_mem (Keeps {E.malloc st} (started E st (idField E st j))) ser _ st3
          (fun s f s' hf hI hok => hI.trans (ihitem s _ f.1 f.2 s' (hser f hf) hok)) (.refl _ _) hparse
      have h4 : Keeps {E.malloc st} st3 st4 := foldlM_ok (fun s => Keeps {E.malloc st} st3 s)
        (fun s f s' hI hok => hI.trans (setInternal_keeps hok)) dup st3 st4 (.refl _ st3) hlink
      have h1 : Keeps ∅ st (started E st (idField E st j)) := keeps_create E st _
      -- and the new struct is at an address where nothing was
      refine ⟨(((h1.mono (Set.empty_subset _)).trans h3).trans h4).of_dead fun a ha => ?_, rfl⟩
      rw [Set.mem_singleton_iff.1 ha, malloc_dead]
    · unfold itemParse at hok
      cases hitem with
      | int => exact setWith_keeps (fun r hr => by cases hr; exact .refl ∅ st) hok
      | real => exact setWith_keeps (fun r hr => by cases hr; exact .refl ∅ st) hok
      | str => exact setWith_keeps (fun r hr => by cases hr; exact .refl ∅ st) hok
      | sizedbuf b =>
        have hok : (setWith E st S key fun st => do
          let r1 ← rpcSizedbufDeserialize E st (rpcSizedbufSerialize b)
          .ok (r1.1, .sizedbuf r1.2)) = .ok st' := hok
        refine setWith_keeps (fun r hr => ?_) hok
        obtain ⟨r1, h1, hr⟩ := bind_eq_ok.1 hr
        cases hr
        exact (sizedbuf_keeps h1).1
      | function f =>
        have hok : (setWith E st S key fun st => do
          let r1 ← rpcFunctionDeserialize E st (rpcFunctionSerialize f)
          .ok (r1.1, .function r1.2)) = .ok st' := hok
        refine setWith_keeps (fun r hr => ?_) hok
        obtain ⟨r1, h1, hr⟩ := bind_eq_ok.1 hr
        cases hr
        exact (function_keeps h1).1
      | @struct fs ser dup hroot hser =>
        simp only [hroot.type, Json.stringValue, if_pos] at hok
        refine setWith_keeps (fun r hr => ?_) hok
        obtain ⟨r1, h1, hr⟩ := bind_eq_ok.1 hr
        cases hr
        exact (ihstruct st _ ser dup r1 hroot hser h1).1

end Decode

/-! ## Serialising one field

With one key at most every order of the table is the same and no key has an alias, so
neither the duplicate search nor the removals of `rpc_struct_serialize` do anything, and
what is left is the shallow copy and one element. -/

section Single
variable {E : Env} {utf8 : CStr → Bool} {st st' : State} {S : Addr} {s : RpcStruct}

/-- There is one order of at most one key. -/
theorem perm_of_length_le_one {α : Type} {l l' : List α} (h : l.Perm l') (hl : l'.length ≤ 1) :
    l = l' := by
  cases l' with
  | nil => exact h.eq_nil
  | cons a l' =>
    cases l' with
    | nil => exact List.perm_singleton.1 h
    | cons b l' => exact absurd hl (by simp)

/-- One turn of the copying loop: the key arrives in the copy with the same value, and no
other struct changes. Neither the count nor the origin recorded on the way matters, since
both live in the tracker. -/
theorem copyElement_entry {d : Addr} {c : RpcStruct} {k : CStr} {e : RpcTypeT}
    (he : s.map.lookup k = some e) (hnn : rpcIsPointer e.type = true → e.ptrValue ≠ 0)
    (hc : st.struct? d = some c) (hk : c.map.lookup k = none) :
    ∃ st' e', copyElement E s d st k = .ok st' ∧ e.SameValue e' ∧
      (∀ a, a ≠ d → st'.struct? a = st.struct? a) ∧
      st'.struct? d = some { c with map := c.map.insert k e' } := by
  have hheap : (incrementElement st d k e).heap = st.heap := by
    unfold incrementElement
    split
    · exact heap_precIncrement ..
    · rfl
  have hc1 : (incrementElement st d k e).struct? d = some c :=
    (struct?_congr (by rw [hheap])).trans hc
  refine ⟨(trackElement (incrementElement st d k e) d k e).setObj d (.struct
    { c with map := c.map.insert k (strdupElement E (incrementElement st d k e) e) }),
    strdupElement E (incrementElement st d k e) e, ?_, sameValue_strdupElement e, fun a ha => ?_, ?_⟩
  · simp only [copyElement, he]
    rw [setInternal_fresh (E := E) hc1 hk hnn]
    rfl
  · rw [struct?_setObj_struct, if_neg ha]
    exact struct?_congr (by rw [heap_trackElement, hheap])
  · rw [struct?_setObj_struct, if_pos rfl]

/-- The entries of the shallow copy, whatever the tracker is like. -/
theorem copy_entries {d : Addr} (hs : st.struct? S = some s)
    (hnn : ∀ k e, s.map.lookup k = some e → rpcIsPointer e.type = true → e.ptrValue ≠ 0)
    (hok : rpcStructCopy E st S = .ok (st', d)) : st'.struct? S = some s ∧
      ∃ c, st'.struct? d = some c ∧ c.map.keys.Perm s.map.keys ∧
        ∀ k e, s.map.lookup k = some e → ∃ e', c.map.lookup k = some e' ∧ e.SameValue e' := by
  simp only [rpcStructCopy, hs, rpcStructCreate] at hok
  obtain ⟨st2, hid, hok⟩ := bind_eq_ok.1 hok
  obtain ⟨st3, hloop, hok⟩ := bind_eq_ok.1 hok
  obtain ⟨st4, hcopyof, hok⟩ := bind_eq_ok.1 hok
  cases hok
  -- the copy is not the struct copied: its address was free
  have hSd : S ≠ E.malloc st := by
    intro hc
    have hl := struct?_eq_some.1 hs
    rw [hc, malloc_dead] at hl; cases hl
  obtain ⟨hS2, c2, hc2, hempty⟩ : st2.struct? S = some s ∧
      ∃ c, st2.struct? (E.malloc st) = some c ∧ c.map = ∅ := by
    have hnew : (st.setObj (E.malloc st) (.struct ⟨∅, E.random st ++ [0], 0⟩)).struct?
        (E.malloc st) = some ⟨∅, E.random st ++ [0], 0⟩ := by rw [struct?_setObj_struct, if_pos rfl]
    unfold rpcStructIdSet at hid
    rw [hnew] at hid
    simp only at hid
    split at hid
    · cases hid
    · cases hid
      refine ⟨?_, _, by rw [struct?_setObj_struct, if_pos rfl], rfl⟩
      rw [struct?_setObj_struct, if_neg hSd, struct?_setObj_struct, if_neg hSd, hs]
  -- the keys copied so far, and no others
  let I : List CStr → State → Prop := fun done st1 => st1.struct? S = some s ∧
    ∃ c, st1.struct? (E.malloc st) = some c ∧ ∀ k, (k ∉ done → c.map.lookup k = none) ∧
      (k ∈ done → ∀ e, s.map.lookup k = some e → ∃ e', c.map.lookup k = some e' ∧ e.SameValue e')
  have hkeys : ∀ k, k ∈ E.order st2 S s.map.keys ↔ ∃ e, s.map.lookup k = some e := fun k => by
    rw [(E.order_perm ..).mem_iff, Table.mem_keys_iff]
  obtain ⟨st3', hloop', h3⟩ := foldlM_inv_nodup (f := copyElement E s (E.malloc st)) I
    (E.order st2 S s.map.keys) [] st2 ((E.order_perm ..).nodup_iff.2 s.map.keys_nodup)
    (fun _ _ => List.not_mem_nil)
    ⟨hS2, c2, hc2, fun k => ⟨fun _ => by rw [hempty]; rfl, fun hk => by cases hk⟩⟩
    (fun done st1 k hk hnew hI => by
      obtain ⟨hS1, c, hc, hmap⟩ := hI
      obtain ⟨e, he⟩ := (hkeys k).1 hk
      obtain ⟨st', e', hok, hv, hother, hd⟩ :=
        copyElement_entry (E := E) he (hnn k e he) hc ((hmap k).1 hnew)
      refine ⟨st', hok, (hother S hSd).trans hS1, _, hd, fun k' => ?_⟩
      rw [List.mem_cons, Table.lookup_insert_if]
      by_cases hkk : k' = k
      · subst hkk
        refine ⟨fun hno => absurd (.inl rfl) hno, fun _ e0 he0 => ⟨e', by rw [if_pos rfl], ?_⟩⟩
        rw [he] at he0
        cases he0
        exact hv
      · rw [if_neg hkk, or_iff_right hkk]
        exact hmap k')
  rw [hloop] at hloop'
  cases hloop'
  obtain ⟨hS3, c3, hc3, hmap⟩ := h3
  unfold setCopyof at hcopyof
  simp only [hc3] at hcopyof
  cases hcopyof
  refine ⟨by rw [struct?_setObj_struct, if_neg hSd, hS3], _, by
    rw [struct?_setObj_struct, if_pos rfl], ?_, fun k e he => ?_⟩
  · refine (List.perm_ext_iff_of_nodup (AList.keys_nodup _) s.map.keys_nodup).2 fun k => ?_
    rw [Table.mem_keys_iff, Table.mem_keys_iff]
    constructor
    · intro h
      obtain ⟨e', he'⟩ := h
      by_contra hno
      have hnot : k ∉ (E.order st2 S s.map.keys).reverse ++ [] := by
        rw [List.append_nil, List.mem_reverse, hkeys]
        exact hno
      rw [(hmap k).1 hnot] at he'; cases he'
    · intro h
      obtain ⟨e, he⟩ := h
      obtain ⟨e', he', -⟩ := (hmap k).2 (by simp [hkeys, he]) e he
      exact ⟨e', he'⟩
  · exact (hmap k).2 (by simp [hkeys, he]) e he

/-- One key has no alias: the search has nothing left to compare it with. -/
theorem found_single (hs : st.struct? S = some s) (hlen : s.map.keys.length ≤ 1) {dups : List DupInfo}
    (hok : rpcStructFoundDuplicates E st S = .ok dups) : ∀ g ∈ dups, g.duplicates = [] := by
  simp only [rpcStructFoundDuplicates, hs] at hok
  obtain ⟨fs, hloop, hok⟩ := bind_eq_ok.1 hok
  cases hok
  rw [perm_of_length_le_one (E.order_perm ..) hlen] at hloop
  cases hkeys : s.map.keys with
  | nil =>
    rw [hkeys] at hloop
    cases hloop
    exact nofun
  | cons k ks =>
    rw [hkeys] at hloop hlen
    cases ks with
    | cons k' ks => exact absurd hlen (by simp)
    | nil =>
      rw [List.foldlM_cons] at hloop
      obtain ⟨fs1, hstep, hloop⟩ := bind_eq_ok.1 hloop
      cases hloop
      unfold foundStep at hstep
      split at hstep
      · cases hstep
        exact nofun
      · split at hstep
        · cases hstep
          exact nofun
        · cases hstep
          intro g hg
          cases List.mem_singleton.1 hg
          rfl

/-- What becomes of a struct of at most one field: its document holds that field, as
`serializeElement` gives it for an element of the same value, and no duplicates. A field
of unknown type would be dropped and a NULL pointer not copied, which `hfield` excludes. -/
theorem serialize_single (hascii : AsciiValid utf8) (hs : st.struct? S = some s)
    (hlen : s.map.keys.length ≤ 1)
    (hfield : ∀ k e, s.map.lookup k = some e →
      e.type ≠ .unknown ∧ (rpcIsPointer e.type = true → e.ptrValue ≠ 0))
    {n : Nat} {j : Json} (hok : rpcStructSerialize E utf8 (n + 1) st S = .ok (st', j)) :
    ∃ ser, Root j ser [] ∧ (s.map.keys = [] → ser = []) ∧
      ∀ k e, s.map.keys = [k] → s.map.lookup k = some e → ∃ st1 st2 e' item, e.SameValue e' ∧
        serializeElement utf8 (rpcStructSerialize E utf8 n) st1 e' = .ok (st2, item) ∧
        ser = Json.setNew utf8 [] k item := by
  unfold rpcStructSerialize at hok
  obtain ⟨⟨st1, d⟩, hcopy, hok⟩ := bind_eq_ok.1 hok
  obtain ⟨dups, hfound, hok⟩ := bind_eq_ok.1 hok
  obtain ⟨st2, hunknown, hok⟩ := bind_eq_ok.1 hok
  obtain ⟨st3, hremove, hok⟩ := bind_eq_ok.1 hok
  obtain ⟨⟨st4, ser⟩, hloop, hok⟩ := bind_eq_ok.1 hok
  obtain ⟨st5, -, hok⟩ := bind_eq_ok.1 hok
  cases hok
  obtain ⟨hS1, c, hc, hperm, hentry⟩ := copy_entries hs (fun k e he => (hfield k e he).2) hcopy
  have hdups := found_single hS1 hlen hfound
  have hnodup : dups.foldl (duplicateFields utf8) [] = [] := by
    have hall : ∀ l : List DupInfo, (∀ g ∈ l, g.duplicates = []) →
        l.foldl (duplicateFields utf8) [] = [] := by
      intro l
      induction l with
      | nil => exact fun _ => rfl
      | cons g l ih =>
        intro h
        rw [List.foldl_cons, duplicateFields, h g List.mem_cons_self]
        exact ih fun g' hg' => h g' (List.mem_cons_of_mem _ hg')
    exact hall dups hdups
  -- neither loop removes anything
  -- the first looks for unknown types, and the copy has those of the struct
  have h2 : st2 = st1 := by
    refine foldlM_ok (fun s => s = st1) (fun s k s' hI hstep => ?_) _ st1 st2 rfl hunknown
    subst hI
    unfold removeUnknown at hstep
    split at hstep
    · rename_i hty
      exfalso
      unfold rpcStructGetInternal at hty
      rw [entry_of_struct hc] at hty
      cases hk : c.map.lookup k with
      | none => rw [hk] at hty; cases hty
      | some e' =>
        obtain ⟨e, he⟩ := Table.mem_keys_iff.1 (hperm.mem_iff.1 (Table.mem_keys_iff.2 ⟨e', hk⟩))
        obtain ⟨e1, he1, hv⟩ := hentry k e he
        rw [hk] at he1
        cases he1
        rw [hk, Option.getD_some, hv.type] at hty
        exact (hfield k e he).1 hty
    · cases hstep
      rfl
  subst h2
  -- the second goes through the aliases found, of which there are none
  have h3 : st3 = st2 := by
    have hall : ∀ l : List DupInfo, (∀ g ∈ l, g.duplicates = []) →
        l.foldlM (removeDuplicates E d) st2 = .ok st2 := by
      intro l
      induction l with
      | nil => exact fun _ => rfl
      | cons g l ih =>
        intro h
        rw [List.foldlM_cons, removeDuplicates, h g List.mem_cons_self]
        exact ih fun g' hg' => h g' (List.mem_cons_of_mem _ hg')
    rw [hall dups hdups] at hremove
    cases hremove
    rfl
  subst h3
  have hkeys : E.order st3 d (((st3.struct? d).map fun s => s.map.keys).getD []) = s.map.keys := by
    rw [hc, Option.map_some, Option.getD_some]
    exact perm_of_length_le_one ((E.order_perm ..).trans hperm) hlen
  rw [hkeys] at hloop
  refine ⟨ser, ?_, fun hnil => ?_, fun k e hk he => ?_⟩
  · rw [hnodup]
    exact root_setNew hascii _ ser []
  · rw [hnil] at hloop
    cases hloop
    rfl
  · rw [hk, List.foldlM_cons] at hloop
    obtain ⟨⟨st6, ser6⟩, hstep, hloop⟩ := bind_eq_ok.1 hloop
    cases hloop
    obtain ⟨⟨st7, item⟩, hel, hstep⟩ := bind_eq_ok.1 hstep
    cases hstep
    obtain ⟨e', he', hv⟩ := hentry k e he
    refine ⟨st3, st4, e', item, hv, ?_, rfl⟩
    rw [rpcStructGetInternal, entry_of_struct hc, he', Option.getD_some] at hel
    exact hel

end Single

/-! ## Decoding one field

Only the type of what arrives is followed here, not its content: it is read off the
item alone (`Json.wireType`), whatever the nested object is. -/

/-- The type under which a decoder stores an item. -/
def Json.wireType (item : Json) : RpcTypes :=
  match item with
  | .int _ => .number
  | .real _ => .real
  | .str _ => .string
  | .obj _ =>
    if item.typeName = some (ascii "RPC_struct") then .struct
    else if item.typeName = some (ascii "RPC_function") then .function
    else if item.typeName = some (ascii "RPC_sizedbuf") then .sizedbuf
    else .none
  | _ => .none

section Single
variable {E : Env} {st st' : State} {S : Addr} {s : RpcStruct} {key : CStr}

/-- Setting a free key changes the type under that key and under no other. -/
theorem setWith_type {t : RpcTypes} {value : State → Except Fault (State × RpcTypeT)}
    (hs : st.struct? S = some s) (hk : s.map.lookup key = none)
    (hvalue : ∀ r, value st = .ok r → Keeps ∅ st r.1 ∧ r.2.type = t ∧
      (rpcIsPointer t = true → r.2.ptrValue ≠ 0))
    (hok : setWith E st S key value = .ok st') (k : CStr) : (rpcStructGetInternal st' S k).type =
      if k = key then t else (rpcStructGetInternal st S k).type := by
  have hfree : ¬ rpcStructExists st S key = true := by
    rw [rpcStructExists, rpcStructGetInternal, entry_of_struct hs, hk]
    decide
  rw [setWith, if_neg hfree] at hok
  obtain ⟨⟨st1, e⟩, hr, hok⟩ := bind_eq_ok.1 hok
  obtain ⟨hkeeps, hty, hnn⟩ := hvalue _ hr
  obtain ⟨s1, hs1, -, hmap⟩ := hkeeps.struct (Set.notMem_empty S) hs
  simp only at hty hnn
  subst hty
  have hset := setInternal_fresh (E := E) hs1 ((hmap key).trans hk) hnn
  simp only at hok
  rw [hset] at hok
  cases hok
  rw [rpcStructGetInternal, entry_setObj_struct, if_pos rfl, Table.lookup_insert_if]
  split
  · rw [Option.getD_some, type_strdupElement]
  · rw [rpcStructGetInternal, entry_of_struct hs, hmap]

/-- An item is stored as what it says, unless its key is taken. The object it is made of is
new, so its address is not NULL and the setter takes it. -/
theorem itemParse_setWith {item : Json} (hitem : Emitted item) (E : Env) (n : Nat) (st : State)
    (S : Addr) (key : CStr) : ∃ value, itemParse E (n + 1) st S key item = setWith E st S key value ∧
      ∀ r, value st = .ok r → Keeps ∅ st r.1 ∧ r.2.type = item.wireType ∧
        (rpcIsPointer item.wireType = true → r.2.ptrValue ≠ 0) := by
  unfold itemParse
  cases hitem with
  | int =>
    exact ⟨_, rfl, fun r hr => by cases hr; exact ⟨.refl ∅ st, rfl, fun hc => by cases hc⟩⟩
  | real =>
    exact ⟨_, rfl, fun r hr => by cases hr; exact ⟨.refl ∅ st, rfl, fun hc => by cases hc⟩⟩
  | str => exact ⟨_, rfl, fun r hr => by cases hr; exact ⟨.refl ∅ st, rfl, fun _ => Nat.one_ne_zero⟩⟩
  | sizedbuf b =>
    refine ⟨fun st => do
      let r1 ← rpcSizedbufDeserialize E st (rpcSizedbufSerialize b)
      .ok (r1.1, .sizedbuf r1.2), rfl, fun r hr => ?_⟩
    obtain ⟨r1, h1, hr⟩ := bind_eq_ok.1 hr
    cases hr
    obtain ⟨hkeeps, hp⟩ := sizedbuf_keeps h1
    exact ⟨hkeeps, rfl, fun _ => hp ▸ malloc_ne_zero E st⟩
  | function f =>
    refine ⟨fun st => do
      let r1 ← rpcFunctionDeserialize E st (rpcFunctionSerialize f)
      .ok (r1.1, .function r1.2), rfl, fun r hr => ?_⟩
    obtain ⟨r1, h1, hr⟩ := bind_eq_ok.1 hr
    cases hr
    obtain ⟨hkeeps, hp⟩ := function_keeps h1
    exact ⟨hkeeps, rfl, fun _ => hp ▸ malloc_ne_zero E st⟩
  | @struct fs ser dup hroot hser =>
    have hname : Json.typeName (.obj fs) = some (ascii "RPC_struct") := by
      rw [Json.typeName, hroot.type]
      rfl
    simp only [hroot.type, Json.stringValue, if_pos]
    rw [Json.wireType, if_pos hname]
    refine ⟨_, rfl, fun r hr => ?_⟩
    obtain ⟨r1, h1, hr⟩ := bind_eq_ok.1 hr
    cases hr
    obtain ⟨hkeeps, hp⟩ := (decode_survives E n).1 st _ ser dup r1 hroot hser h1
    exact ⟨hkeeps, rfl, fun _ => hp ▸ malloc_ne_zero E st⟩

/-- One item decoded, seen from the types under all keys. -/
theorem itemParse_type {n : Nat} {item : Json} (hitem : Emitted item) (hs : st.struct? S = some s)
    (hk : s.map.lookup key = none) (hok : itemParse E n st S key item = .ok st') (k : CStr) :
    (rpcStructGetInternal st' S k).type =
      if k = key then item.wireType else (rpcStructGetInternal st S k).type := by
  cases n with
  | zero =>
    unfold itemParse at hok
    cases hok
  | succ n =>
    obtain ⟨value, hset, hvalue⟩ := itemParse_setWith hitem E n st S key
    rw [hset] at hok
    exact setWith_type hs hk hvalue hok k

/-- The type of a field that came alone, and of one that did not come. -/
theorem deserialize_single {j : Json} {ser : List (CStr × Json)} (hroot : Root j ser [])
    (hser : ∀ f ∈ ser, Emitted f.2) (hlen : ser.length ≤ 1) {new : Addr}
    (hok : rpcStructDeserialize E st (some j) = .ok (st', new)) :
    (rpcStructGetInternal st' new key).type = ((ser.lookup key).map Json.wireType).getD .none := by
  rw [rpcStructDeserialize, show decodeFuel j = 2 * j.depth + 1 from rfl, structDeserialize_eq] at hok
  obtain ⟨st1, hid, hok⟩ := bind_eq_ok.1 hok
  have hst1 := (idPhase_spec E st j).of_ok hid
  subst hst1
  simp only [parsePhase, hroot.type, Json.stringValue, if_pos, hroot.serialised,
    hroot.duplicates, Option.map_some, Option.getD_some, Json.fields, List.foldlM_nil] at hok
  obtain ⟨st3, hparse, hok⟩ := bind_eq_ok.1 hok
  cases hok
  have hs1 : (started E st (idField E st j)).struct? (E.malloc st) = some ⟨∅, idField E st j, 0⟩ := by
    rw [started, struct?_setObj_struct, if_pos rfl]
  cases ser with
  | nil =>
    cases hparse
    rw [rpcStructGetInternal, entry_of_struct hs1]
    rfl
  | cons f ser =>
    cases ser with
    | cons g ser => exact absurd hlen (by simp)
    | nil =>
      rw [List.foldlM_cons] at hparse
      obtain ⟨st4, hparse, hnil⟩ := bind_eq_ok.1 hparse
      cases hnil
      rw [itemParse_type (hser f List.mem_cons_self) hs1 rfl hparse, List.lookup_cons, List.lookup_nil]
      split
      · rename_i hkey
        rw [hkey, beq_self_eq_true]
        rfl
      · rename_i hkey
        rw [beq_eq_false_iff_ne.2 hkey, rpcStructGetInternal, entry_of_struct hs1]
        rfl

end Single

/-! ## Both ways -/

/-- The serialiser has an item for the element: not for an unknown type, not for a string
that is not UTF-8, not for a real that is NaN or infinite. -/
def RpcTypeT.travels (utf8 : CStr → Bool) : RpcTypeT → Bool
  | .none | .unknown _ => false
  | .string _ text => utf8 text
  | .real raw => (serializeReal raw).isSome
  | _ => true

theorem Root.wireType {j : Json} {ser dup : List (CStr × Json)} (h : Root j ser dup) :
    j.wireType = .struct := by
  have hname : j.typeName = some (ascii "RPC_struct") := by
    rw [Json.typeName, h.type]
    rfl
  cases j with
  | obj fs => rw [Json.wireType, if_pos hname]
  | _ => cases h.type

section Single
variable {E : Env} {utf8 : CStr → Bool} {st st' : State} {S : Addr} {s : RpcStruct}

/-- The item, if there is one, says the element's type. -/
theorem serializeElement_item (hascii : AsciiValid utf8) {n : Nat} {e : RpcTypeT}
    {item : Option Json}
    (hok : serializeElement utf8 (rpcStructSerialize E utf8 n) st e = .ok (st', item)) :
    item.map Json.wireType = if e.travels utf8 then some e.type else none := by
  cases e with
  | none =>
    cases hok
    rfl
  | unknown p =>
    cases hok
    rfl
  | number raw =>
    cases hok
    rfl
  | real raw =>
    cases hok
    rcases Option.eq_none_or_eq_some (serializeReal raw) with hreal | ⟨item, hreal⟩
    · simp [RpcTypeT.travels, hreal]
    · obtain ⟨bits, rfl⟩ := serializeReal_eq_some hreal
      simp [RpcTypeT.travels, RpcTypeT.type, Json.wireType, hreal]
  | string q t =>
    cases hok
    by_cases h : utf8 t = true <;> simp [RpcTypeT.travels, RpcTypeT.type, Json.string, h, Json.wireType]
  | struct p =>
    obtain ⟨⟨st1, j⟩, hp, hok⟩ := bind_eq_ok.1 hok
    cases hok
    obtain ⟨fs, ser, dup, rfl, hroot, -⟩ := serialize_emitted hascii n _ _ _ _ hp
    rw [Option.map_some, hroot.wireType]
    rfl
  | sizedbuf p =>
    simp only [serializeElement] at hok
    split at hok
    · cases hok
      rfl
    · cases hok
  | function p =>
    simp only [serializeElement] at hok
    split at hok
    · cases hok
      rfl
    · cases hok

/-- It does not matter where a string is, only what it says. -/
theorem RpcTypeT.SameValue.travels {e e' : RpcTypeT} (h : e.SameValue e') :
    e'.travels utf8 = e.travels utf8 := by
  cases e <;> cases e' <;> cases h <;> rfl

/-- The types a receiver finds in a struct of at most one field: that of the field, if
its key and its element travel. -/
theorem single_received (hascii : AsciiValid utf8) (hs : st.struct? S = some s)
    (hlen : s.map.keys.length ≤ 1)
    (hfield : ∀ k e, s.map.lookup k = some e →
      e.type ≠ .unknown ∧ (rpcIsPointer e.type = true → e.ptrValue ≠ 0))
    {j : Json} (hok : Serializes E utf8 st S st' j) {E' : Env} {r r' : State} {new : Addr}
    (hback : rpcStructDeserialize E' r (some j) = .ok (r', new)) (k : CStr) :
    (rpcStructGetInternal r' new k).type =
      if utf8 k && (rpcStructGetInternal st S k).travels utf8 then (rpcStructGetInternal st S k).type
      else .none := by
  obtain ⟨n, hok⟩ := hok
  cases n with
  | zero => cases hok
  | succ n =>
    obtain ⟨ser, hroot, hnil, hone⟩ := serialize_single hascii hs hlen hfield hok
    have hemitted : ∀ f ∈ ser, Emitted f.2 := by
      obtain ⟨fs, ser', dup', rfl, hroot', hser'⟩ := serialize_emitted hascii (n + 1) _ _ _ _ hok
      cases hroot.serialised.symm.trans hroot'.serialised
      exact hser'
    cases hkeys : s.map.keys with
    | nil =>
      cases hnil hkeys
      have hnone : st.entry S k = none := by
        rw [entry_of_struct hs]
        cases hk : s.map.lookup k with
        | none => rfl
        | some e =>
          have := Table.mem_keys_iff.2 ⟨e, hk⟩
          rw [hkeys] at this; cases this
      rw [deserialize_single hroot nofun (Nat.zero_le _) hback, rpcStructGetInternal, hnone]
      simp [RpcTypeT.travels]
    | cons k0 ks =>
      rw [hkeys] at hlen
      cases ks with
      | cons k1 ks => exact absurd hlen (by simp)
      | nil =>
        obtain ⟨e, he⟩ := Table.mem_keys_iff.1 (show k0 ∈ s.map.keys by rw [hkeys]; exact List.mem_cons_self)
        obtain ⟨st1, st2, e', item, hv, hel, rfl⟩ := hone k0 e hkeys he
        have hitem := serializeElement_item hascii hel
        rw [hv.travels, hv.type] at hitem
        have hlen' : (Json.setNew utf8 [] k0 item).length ≤ 1 := by
          unfold Json.setNew
          split
          · exact Nat.zero_le _
          · split <;> simp
        rw [deserialize_single hroot hemitted hlen' hback, Json.lookup_setNew, rpcStructGetInternal,
          entry_of_struct hs]
        -- the one key, with its element sent or left out; then all the others
        by_cases hk : k = k0
        · subst hk
          rw [he, Option.getD_some]
          cases item with
          | none =>
            have htravels : e.travels utf8 = false := by
              by_contra h
              rw [if_pos (Bool.eq_true_of_not_eq_false h)] at hitem
              cases hitem
            simp [htravels]
          | some item =>
            have htravels : e.travels utf8 = true := by
              by_contra h
              rw [if_neg h] at hitem
              cases hitem
            rw [htravels, if_pos rfl] at hitem
            cases hu : utf8 k <;> simp_all
        · have hnone : s.map.lookup k = none := by
            cases hl : s.map.lookup k with
            | none => rfl
            | some e1 =>
              have := Table.mem_keys_iff.2 ⟨e1, hl⟩
              rw [hkeys, List.mem_singleton] at this
              exact absurd this hk
          rw [hnone, if_neg fun hc => hk hc.1]
          simp [RpcTypeT.travels]

end Single

end FfiRpc
