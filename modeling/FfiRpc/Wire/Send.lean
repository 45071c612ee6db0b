import FfiRpc.Core.Nesting
import FfiRpc.Store.Reach
import FfiRpc.Store.Temp
import FfiRpc.Wire.Aliases

/-!
# What serialisation does

`serialize_spec` follows `rpc_struct_serialize` through all levels of nesting,
relative to the state `st0` in which the outermost call was made: the copies
come and go, no object is touched (`Frame ∅`), every object the struct holds
keeps a reference more than before (`extra`), and the document represents the
struct (`RepItem`).

Two things may keep a call from returning, and `bad` stands for them: nesting
beyond the bound (`Nesting.DepthLE`; a cycle has none) and the search for aliases.
-/
namespace FfiRpc

open State
open Nesting (DepthLE)

/-! ## What is nested in a struct -/

/-- Texts in ASCII are valid. -/
def AsciiValid (utf8 : CStr → Bool) : Prop := ∀ s : CStr, (∀ b ∈ s, b < 128) → utf8 s = true

/-- A struct whose fields a document can carry. -/
structure Writable (utf8 : CStr → Bool) (st : State) (S : Addr) : Prop where
  id : ∀ s, st.struct? S = some s →
    ∃ id, s.ID = id ++ [0] ∧ id.length = 64 ∧ (0 : UInt8) ∉ id ∧ utf8 id = true
  key : ∀ k e, st.entry S k = some e → utf8 k = true
  text : ∀ k q t, st.entry S k = some (.string q t) → utf8 t = true
  real : ∀ k raw, st.entry S k = some (.real raw) → ∃ bits, serializeReal raw = some (.real bits)

/-- A struct that a document can carry, with all that is nested in it. -/
structure Expressible (utf8 : CStr → Bool) (st : State) (S : Addr) : Prop where
  ascii : AsciiValid utf8
  nested : ∀ T, st.Nested S T → Writable utf8 st T

theorem Expressible.self {utf8 : CStr → Bool} {st : State} {S : Addr} (h : Expressible utf8 st S) :
    Writable utf8 st S := h.nested S .refl

theorem Expressible.edge {utf8 : CStr → Bool} {st : State} {S p : Addr} (h : Expressible utf8 st S)
    (hp : st.Edge S p) : Expressible utf8 st p := ⟨h.ascii, fun T hT => h.nested T (.head hp hT)⟩

/-- A struct with an ID of its own making, and doubles for reals. -/
structure Sendable (utf8 : CStr → Bool) (st : State) (S : Addr) : Prop where
  id : ∀ s, st.struct? S = some s →
    ∃ id, s.ID = id ++ [0] ∧ id.length = 64 ∧ ∀ b ∈ id, b ∈ idAlphabet
  key : ∀ k e, st.entry S k = some e → utf8 k = true
  text : ∀ k q t, st.entry S k = some (.string q t) → utf8 t = true
  real : ∀ k raw, st.entry S k = some (.real raw) → raw.length = 8 ∧ doubleFinite raw = true

/-- Such a struct, with all that is nested in it. -/
structure Portable (utf8 : CStr → Bool) (st : State) (S : Addr) : Prop where
  ascii : AsciiValid utf8
  nested : ∀ T, st.Nested S T → Sendable utf8 st T

theorem zero_notMem_id {id : CStr} (h : ∀ b ∈ id, b ∈ idAlphabet) : (0 : UInt8) ∉ id := by
  have hall : (0 : UInt8) ∉ idAlphabet := by decide +kernel
  exact fun h0 => hall (h 0 h0)

theorem ascii_id {id : CStr} (h : ∀ b ∈ id, b ∈ idAlphabet) : ∀ b ∈ id, b < 128 := by
  have hall : ∀ b ∈ idAlphabet, b < 128 := by decide +kernel
  exact fun b hb => hall b (h b hb)

theorem serializeReal_finite {raw : List UInt8} (h8 : raw.length = 8)
    (hfin : doubleFinite raw = true) : serializeReal raw = some (.real raw) := by
  have h4 : ¬ raw.length = 4 := by omega
  simp only [serializeReal, if_neg h4, if_pos h8, if_pos hfin]

theorem serializeReal_double {raw bits : List UInt8} (h8 : raw.length = 8)
    (h : serializeReal raw = some (.real bits)) : bits = raw := by
  have h4 : ¬ raw.length = 4 := by omega
  unfold serializeReal at h
  simp only [if_neg h4, if_pos h8] at h
  split at h
  · cases h
    rfl
  · cases h

theorem Portable.expressible {utf8 : CStr → Bool} {st : State} {S : Addr} (h : Portable utf8 st S) :
    Expressible utf8 st S := by
  refine ⟨h.ascii, fun T hT => ?_⟩
  have hT := h.nested T hT
  refine ⟨fun s hs => ?_, hT.key, hT.text, fun k raw hk => ?_⟩
  · obtain ⟨id, hid, hlen, hmem⟩ := hT.id s hs
    exact ⟨id, hid, hlen, zero_notMem_id hmem, h.ascii id (ascii_id hmem)⟩
  · obtain ⟨h8, hfin⟩ := hT.real k raw hk
    exact ⟨raw, serializeReal_finite h8 hfin⟩

/-! ## Editing the copy -/

/-- The copy `d` lost the entries under `P`, and nothing else happened. -/
structure Trimmed (off : Finset Addr) (extra : Addr → Nat) (d : Addr) (P : CStr → Prop) (st st' : State) : Prop where
  temp : Temp off extra d st'
  frame : Frame {d} st st'
  gone : ∀ k, P k → st'.entry d k = none
  stay : ∀ k, ¬ P k → st'.entry d k = st.entry d k

section Trim
variable {E : Env} {off : Finset Addr} {extra : Addr → Nat} {d : Addr} {st : State}

theorem Trimmed.refl (h : Temp off extra d st) : Trimmed off extra d (fun _ => False) st st :=
  ⟨h, .refl _ st, fun _ => False.elim, fun _ _ => rfl⟩

theorem Trimmed.congr {P P' : CStr → Prop} {st' : State} (h : Trimmed off extra d P st st')
    (hP : ∀ k, P' k ↔ P k) : Trimmed off extra d P' st st' :=
  ⟨h.temp, h.frame, fun k hk => h.gone k ((hP k).1 hk), fun k hk => h.stay k (mt (hP k).2 hk)⟩

theorem Trimmed.remove {P : CStr → Prop} {st' : State} (h : Trimmed off extra d P st st') (k : CStr) :
    ∃ st'', Prod.fst <$> rpcStructRemove E st' d k = .ok st'' ∧
      Trimmed off extra d (fun k' => k' = k ∨ P k') st st'' := by
  obtain ⟨st'', hok, htemp, hframe, hentry⟩ := h.temp.remove E k
  refine ⟨st'', hok, htemp, h.frame.trans hframe, fun k' hk' => ?_, fun k' hk' => ?_⟩
  · rw [hentry]
    split
    · rfl
    · rename_i hne
      exact h.gone k' (hk'.resolve_left hne)
  · rw [not_or] at hk'
    rw [hentry, if_neg hk'.1, h.stay k' hk'.2]

theorem removeUnknown_loop (h : Temp off extra d st) (ks : List CStr) :
    ∃ st', ks.foldlM (removeUnknown E d) st = .ok st' ∧
      Trimmed off extra d (fun k => k ∈ ks ∧ (rpcStructGetInternal st d k).type = .unknown) st st' := by
  obtain ⟨st', hok, ht⟩ := foldlM_inv (f := removeUnknown E d)
    (fun done st' =>
      Trimmed off extra d (fun k => k ∈ done ∧ (rpcStructGetInternal st d k).type = .unknown) st st')
    ks [] st ((Trimmed.refl h).congr fun k => by simp) (by
      intro done st' k _ ht
      by_cases hk : (rpcStructGetInternal st d k).type = .unknown
      · by_cases hdone : k ∈ done
        · refine ⟨st', ?_, ht.congr fun k' => ?_⟩
          · have hnone : st'.entry d k = none := ht.gone k ⟨hdone, hk⟩
            rw [removeUnknown, rpcStructGetInternal, hnone]
            rfl
          · rw [List.mem_cons, or_and_right, or_iff_right_iff_imp]
            rintro ⟨rfl, hk'⟩
            exact ⟨hdone, hk'⟩
        · obtain ⟨st'', hok, ht'⟩ := ht.remove (E := E) k
          refine ⟨st'', ?_, ht'.congr fun k' => ?_⟩
          · have hstay : st'.entry d k = st.entry d k := ht.stay k fun hc => hdone hc.1
            rw [removeUnknown, rpcStructGetInternal, hstay, ← rpcStructGetInternal, if_pos hk]
            exact hok
          · rw [List.mem_cons, or_and_right]
            refine or_congr_left ⟨And.left, ?_⟩
            rintro rfl
            exact ⟨rfl, hk⟩
      · refine ⟨st', ?_, ht.congr fun k' => ?_⟩
        · have hstay : st'.entry d k = st.entry d k := ht.stay k fun hc => hk hc.2
          rw [removeUnknown, rpcStructGetInternal, hstay, ← rpcStructGetInternal, if_neg hk]
        · rw [List.mem_cons, or_and_right, or_iff_right_iff_imp]
          rintro ⟨rfl, hk'⟩
          exact absurd hk' hk)
  exact ⟨st', hok, ht.congr fun k => by simp⟩

theorem removeDuplicates_loop {P : CStr → Prop} {st' : State} (h : Trimmed off extra d P st st')
    (dups : List DupInfo) :
    ∃ st'', dups.foldlM (removeDuplicates E d) st' = .ok st'' ∧
      Trimmed off extra d (fun k => (∃ g ∈ dups, k ∈ g.duplicates) ∨ P k) st st'' := by
  have hgroup : ∀ (g : DupInfo) {P : CStr → Prop} {st1 : State}, Trimmed off extra d P st st1 →
      ∃ st2, removeDuplicates E d st1 g = .ok st2 ∧
        Trimmed off extra d (fun k => k ∈ g.duplicates ∨ P k) st st2 := by
    intro g P st1 ht
    obtain ⟨st2, hok, ht2⟩ := foldlM_inv
      (fun done st2 => Trimmed off extra d (fun k => k ∈ done ∨ P k) st st2)
      g.duplicates [] st1 (ht.congr fun k => by simp) (fun done st2 k _ ht2 => by
        obtain ⟨st3, hok, ht3⟩ := ht2.remove (E := E) k
        exact ⟨st3, hok, ht3.congr fun k' => by rw [List.mem_cons, or_assoc]⟩)
    exact ⟨st2, hok, ht2.congr fun k => by simp⟩
  obtain ⟨st'', hok, ht⟩ := foldlM_inv
    (fun done st2 => Trimmed off extra d (fun k => (∃ g ∈ done, k ∈ g.duplicates) ∨ P k) st st2)
    dups [] st' (h.congr fun k => by simp) (fun done st2 g _ ht2 => by
      obtain ⟨st3, hok, ht3⟩ := hgroup g ht2
      exact ⟨st3, hok, ht3.congr fun k => by simp [or_assoc]⟩)
  exact ⟨st'', hok, ht.congr fun k => by simp⟩

end Trim

/-! ## One call -/

/-- What a call on `S` in state `st` leaves and returns. -/
def Sent (utf8 : CStr → Bool) (off : Finset Addr) (st0 : State) (extra : Addr → Nat) (st : State) (S : Addr)
    (r : State × Json) : Prop :=
  ∃ extra', Inv off extra' ∅ ∅ r.1 ∧ Stored r.1 ∧ Frame ∅ st r.1 ∧ (∀ p, extra p ≤ extra' p) ∧
    (∀ k p, st.held S k = some p → extra p < extra' p) ∧
    (Expressible utf8 st0 S → RepItem st0 Set.univ False (.struct S) r.2)

/-- What the item for one element of `S` owes, `d` being the copy of `S`. -/
def SentItem (utf8 : CStr → Bool) (off : Finset Addr) (st0 : State) (extra : Addr → Nat) (d : Addr) (st : State)
    (S : Addr) (e0 : RpcTypeT) (r : State × Option Json) : Prop :=
  ∃ extra', Temp off extra' d r.1 ∧ Frame ∅ st r.1 ∧ (∀ p, extra p ≤ extra' p) ∧
    (Expressible utf8 st0 S → e0.type ≠ .unknown →
      ∃ item, r.2 = some item ∧ RepItem st0 Set.univ False e0 item)

/-- What the main loop owes once it has visited the keys `done`. -/
def SentFields (utf8 : CStr → Bool) (off : Finset Addr) (st0 : State) (extra : Addr → Nat) (d : Addr) (st : State)
    (S : Addr) (done : List CStr) (r : State × List (CStr × Json)) : Prop :=
  ∃ extra', Temp off extra' d r.1 ∧ Frame ∅ st r.1 ∧ (∀ p, extra p ≤ extra' p) ∧
    (Expressible utf8 st0 S → (r.2.map Prod.fst).Nodup ∧
      (∀ k, (∃ item, r.2.lookup k = some item) ↔ k ∈ done) ∧
      ∀ k item e0, r.2.lookup k = some item → st0.entry S k = some e0 →
        RepItem st0 Set.univ False e0 item)

theorem Temp.grow {off : Finset Addr} {extra extra' : Addr → Nat} {d : Addr} {st st' : State} (h : Temp off extra d st)
    (hinv : Inv off extra' ∅ ∅ st') (hst : Stored st') (hf : Frame ∅ st st')
    (hx : ∀ p, extra p ≤ extra' p) : Temp off extra' d st' := by
  obtain ⟨s, hs⟩ := h.struct
  obtain ⟨s', hs', -⟩ := hf.keeps.struct (Set.notMem_empty d) hs
  refine ⟨hinv, hst, ⟨s', hs'⟩, fun S k hh => ?_, fun k p hh => ?_, h.loud⟩
  · rw [hf.held (Set.notMem_empty S)] at hh
    exact h.unheld S k hh
  · rw [hf.held (Set.notMem_empty d)] at hh
    exact Nat.lt_of_lt_of_le (h.pinned k p hh) (hx p)

section Serialize
variable {E : Env} {utf8 : CStr → Bool} {bad : Prop} {off : Finset Addr} {st0 : State}
  {extra0 : Addr → Nat}

/-- One element of the copy `d`, which stands for `e0` in the state `st0`. -/
theorem serializeElement_spec {rec : State → Addr → Except Fault (State × Json)}
    (h0 : Inv off extra0 ∅ ∅ st0) (hst0 : Stored st0) {S : Addr} {k : CStr} {e0 e : RpcTypeT}
    (he0 : st0.entry S k = some e0) (hv : e0.SameValue e) {extra : Addr → Nat} {d : Addr}
    {st : State} (ht : Temp off extra d st) (hkeep : Keeps ∅ st0 st)
    (hrec : ∀ p, st0.Edge S p → (∃ s, st0.struct? p = some s) →
      Yields bad (rec st p) (Sent utf8 off st0 extra st p)) :
    Yields bad (serializeElement utf8 rec st e) (SentItem utf8 off st0 extra d st S e0) := by
  have htyped : ∀ p, e0.target = some p → ∃ o, st0.heap.lookup p = some o ∧ o.type = e0.type :=
    fun p hp => h0.typed S k e0 p he0 hp (Set.notMem_empty p) (Finset.notMem_empty _)
  have hsized := hst0.sized S k e0 he0
  have hleaf : ∀ {item : Option Json}, (Expressible utf8 st0 S →
      e0.type ≠ .unknown → ∃ j, item = some j ∧ RepItem st0 Set.univ False e0 j) →
      Yields bad (.ok (st, item) : Except Fault _) (SentItem utf8 off st0 extra d st S e0) := fun hi =>
    .ok rfl ⟨extra, ht, .refl _ _, fun _ => Nat.le_refl _, hi⟩
  cases e with
  | none =>
    refine hleaf fun _ _ => ?_
    cases e0 <;> cases hv
    exact hsized.elim
  | unknown q =>
    refine hleaf fun _ hty => ?_
    cases e0 <;> cases hv
    exact absurd rfl hty
  | number raw =>
    refine hleaf fun _ _ => ⟨_, rfl, ?_⟩
    cases e0 <;> cases hv
    have hlen : raw.length ∈ [1, 2, 4, 8] := hsized
    rw [serializeNumber, if_pos hlen]
    exact .number hlen
  | real raw =>
    refine hleaf fun hsend _ => ?_
    cases e0 <;> cases hv
    obtain ⟨bits, hbits⟩ := hsend.self.real k _ he0
    exact ⟨.real bits, hbits, .real False.elim fun _ => hbits⟩
  | string q t =>
    refine hleaf fun hsend _ => ?_
    cases e0 <;> cases hv
    exact ⟨.str _, by rw [Json.string, if_pos (hsend.self.text k _ _ he0)], .string⟩
  | sizedbuf p =>
    cases e0 <;> cases hv
    obtain ⟨o, ho, hty⟩ := htyped p rfl
    cases o <;> cases hty
    have ho' := hkeep.flat (Set.notMem_empty p) ho fun hc => by cases hc
    simp only [serializeElement, ho']
    exact hleaf fun _ _ => ⟨_, rfl, .sizedbuf (Set.mem_univ p) ho⟩
  | function p =>
    cases e0 <;> cases hv
    obtain ⟨o, ho, hty⟩ := htyped p rfl
    cases o <;> cases hty
    have ho' := hkeep.flat (Set.notMem_empty p) ho fun hc => by cases hc
    simp only [serializeElement, ho']
    exact hleaf fun _ _ => ⟨_, rfl, .function (Set.mem_univ p) ho fun hc => by cases hc⟩
  | struct p =>
    cases e0 <;> cases hv
    obtain ⟨o, ho, hty⟩ := htyped p rfl
    cases o with
    | struct s =>
      have hedge : st0.Edge S p := ⟨k, he0⟩
      refine (hrec p hedge ⟨s, struct?_eq_some.2 ho⟩).bind fun r hr => ?_
      obtain ⟨extra', hinv', hst', hf, hx, -, hrep⟩ := hr
      refine .ok rfl ⟨extra', ht.grow hinv' hst' hf hx, hf, hx, fun hsend _ => ⟨r.2, rfl, ?_⟩⟩
      exact hrep (hsend.edge hedge)
    | sizedbuf b => cases hty
    | function f => cases hty

/-- The main loop over the copy `d` of `S`. -/
theorem serializeField_loop {rec : State → Addr → Except Fault (State × Json)}
    (h0 : Inv off extra0 ∅ ∅ st0) (hst0 : Stored st0) {S : Addr} {extra : Addr → Nat} {d : Addr}
    {st : State} (ht : Temp off extra d st) (hkeep : Keeps ∅ st0 st) {ks : List CStr} (hnd : ks.Nodup)
    (hks : ∀ k ∈ ks, ∃ e0 e, st0.entry S k = some e0 ∧ st.entry d k = some e ∧ e0.SameValue e ∧
      e0.type ≠ .unknown)
    (hrec : ∀ extra st p, Inv off extra ∅ ∅ st → Stored st → Keeps ∅ st0 st → st0.Edge S p →
      (∃ s, st0.struct? p = some s) → Yields bad (rec st p) (Sent utf8 off st0 extra st p)) :
    Yields bad (ks.foldlM (serializeField utf8 rec d) (st, [])) (SentFields utf8 off st0 extra d st S ks) := by
  have hloop : Yields bad (ks.foldlM (serializeField utf8 rec d) (st, []))
      (SentFields utf8 off st0 extra d st S (ks.reverse ++ [])) := Yields.foldlM
    (SentFields utf8 off st0 extra d st S) ks [] (st, []) hnd (fun _ _ => List.not_mem_nil)
    ⟨extra, ht, .refl _ _, fun _ => Nat.le_refl _, fun _ => ⟨List.nodup_nil, by simp, nofun⟩⟩ (by
      intro done acc k hk hnew hI
      obtain ⟨extra1, ht1, hf1, hx1, hj1⟩ := hI
      obtain ⟨e0, e, he0, he, hv, hty⟩ := hks k hk
      have hkeep1 := hkeep.trans hf1.keeps
      have hget : rpcStructGetInternal acc.1 d k = e := by
        rw [rpcStructGetInternal, hf1.entry (Set.notMem_empty d), he, Option.getD_some]
      refine Yields.bind (Q := SentItem utf8 off st0 extra1 d acc.1 S e0) ?_ fun r hr => .ok rfl ?_
      · rw [hget]
        exact serializeElement_spec h0 hst0 he0 hv ht1 hkeep1 fun p hp hs =>
          hrec extra1 acc.1 p ht1.inv ht1.stored hkeep1 hp hs
      · obtain ⟨extra2, ht2, hf2, hx2, hitem⟩ := hr
        refine ⟨extra2, ht2, hf1.trans hf2, fun p => (hx1 p).trans (hx2 p), fun hsend => ?_⟩
        obtain ⟨hnd1, hiff1, hrep1⟩ := hj1 hsend
        obtain ⟨item, hr2, hrep⟩ := hitem hsend hty
        have hfree : k ∉ acc.2.map Prod.fst := fun hm => hnew ((hiff1 k).1 (Json.mem_keys_iff.1 hm))
        rw [hr2, Json.setNew_new (hsend.self.key k e0 he0) hfree]
        refine ⟨?_, fun k' => ?_, fun k' item' e' hk' he' => ?_⟩
        · exact Json.nodup_concat hnd1 hfree
        · rw [Json.lookup_concat hfree, List.mem_cons]
          split
          · rename_i hkk
            simp [hkk]
          · rename_i hkk
            rw [hiff1, or_iff_right hkk]
        · rw [Json.lookup_concat hfree] at hk'
          split at hk'
          · rename_i hkk
            subst hkk
            rw [he0] at he'
            cases hk'
            cases he'
            exact hrep
          · exact hrep1 k' item' e' hk' he')
  refine hloop.mono fun r hr => ?_
  obtain ⟨extra', ht', hf', hx', hj'⟩ := hr
  refine ⟨extra', ht', hf', hx', fun hsend => ?_⟩
  obtain ⟨hnd', hiff, hrep⟩ := hj' hsend
  exact ⟨hnd', fun k => by rw [hiff k, List.append_nil, List.mem_reverse], hrep⟩

end Serialize

theorem RpcTypeT.SameValue.type {e e' : RpcTypeT} (h : e.SameValue e') : e'.type = e.type := by
  cases e <;> cases e' <;> cases h <;> rfl

/-- The entries of the copy when the main loop starts: those of the original
that are neither unknown nor an alias. -/
theorem dupless_entry {off : Finset Addr} {extra : Addr → Nat} {st st1 st3 : State} {S d : Addr} {s : RpcStruct}
    {dups : List DupInfo} {ks : List CStr} (h : Copied s S d st st1)
    (ht : Trimmed off extra d (fun k => (∃ g ∈ dups, k ∈ g.duplicates) ∨
      (k ∈ ks ∧ (rpcStructGetInternal st1 d k).type = .unknown)) st1 st3)
    (hks : ∀ k e, st1.entry d k = some e → k ∈ ks) (k : CStr) :
    (∀ e, st3.entry d k = some e → ∃ e0, s.map.lookup k = some e0 ∧ e0.SameValue e ∧
      e0.type ≠ .unknown ∧ ∀ g ∈ dups, k ∉ g.duplicates) ∧
    ∀ e0, s.map.lookup k = some e0 → e0.type ≠ .unknown → (∀ g ∈ dups, k ∉ g.duplicates) →
      ∃ e, st3.entry d k = some e := by
  obtain ⟨c, hc, -, hnone, hsome⟩ := h.map
  refine ⟨fun e he => ?_, fun e0 he0 hty hdup => ?_⟩
  · have hno : ¬ ((∃ g ∈ dups, k ∈ g.duplicates) ∨
        (k ∈ ks ∧ (rpcStructGetInternal st1 d k).type = .unknown)) := by
      intro hP
      rw [ht.gone k hP] at he; cases he
    rw [ht.stay k hno, entry_of_struct hc] at he
    rw [not_or] at hno
    cases hk : s.map.lookup k with
    | none =>
      rw [hnone k hk] at he; cases he
    | some e0 =>
      obtain ⟨e', he', hv⟩ := hsome k e0 hk
      rw [he] at he'
      cases he'
      refine ⟨e0, rfl, hv, fun hty => hno.2 ⟨hks k e ?_, ?_⟩, fun g hg hkg => hno.1 ⟨g, hg, hkg⟩⟩
      · rw [entry_of_struct hc, he]
      · rw [rpcStructGetInternal, entry_of_struct hc, he, Option.getD_some, hv.type, hty]
  · obtain ⟨e, he, hv⟩ := hsome k e0 he0
    refine ⟨e, ?_⟩
    rw [ht.stay k, entry_of_struct hc, he]
    rintro (⟨g, hg, hkg⟩ | ⟨-, hun⟩)
    · exact hdup g hg hkg
    · rw [rpcStructGetInternal, entry_of_struct hc, he, Option.getD_some, hv.type] at hun
      exact hty hun

/-! ### The document -/

/-- The four fields of the root. -/
theorem root_eq {utf8 : CStr → Bool} (hascii : AsciiValid utf8) {id : CStr}
    (hid : utf8 id = true) (ser dup : List (CStr × Json)) :
    Json.obj (Json.setNew utf8 (Json.setNew utf8 (Json.setNew utf8 (Json.setNew utf8 []
      (ascii "ID") (Json.string utf8 id)) (ascii "type") (Json.string utf8 (ascii "RPC_struct")))
      (ascii "serialised") (some (.obj ser))) (ascii "duplicates") (some (.obj dup))) =
      structJson id ser dup := by
  have hkeys : ∀ k ∈ [ascii "ID", ascii "type", ascii "serialised", ascii "duplicates"],
      ∀ b ∈ k, b < 128 := by decide +kernel
  have hnd : [ascii "ID", ascii "type", ascii "serialised", ascii "duplicates"].Nodup := by
    decide +kernel
  have hname := hascii (ascii "RPC_struct") (by decide +kernel)
  have hall := Json.foldl_setNew [(ascii "ID", .str id), (ascii "type", .str (ascii "RPC_struct")),
    (ascii "serialised", .obj ser), (ascii "duplicates", .obj dup)] []
    (fun f hf => hascii f.1 (hkeys f.1 (List.mem_map_of_mem hf))) hnd
  rw [Json.string, if_pos hid, Json.string, if_pos hname]
  exact congrArg Json.obj hall

/-! ### One level -/

/-- Where the main loop starts: `d` is the copy of `S`, `dups` are the aliases and `keys`
the keys that are left. -/
structure Prepared (off : Finset Addr) (extra : Addr → Nat) (st : State) (s : RpcStruct)
    (d : Addr) (dups : List DupInfo) (st3 : State) (keys : List CStr) : Prop where
  temp : Temp off (fun p => extra p + s.refs p) d st3
  frame : Frame {d} st st3
  dead : st.heap.lookup d = none
  groups : AliasGroups s s.map.keys dups
  nodup : keys.Nodup
  keys : ∀ k, k ∈ keys ↔ ∃ e, st3.entry d k = some e
  entry : ∀ k e, st3.entry d k = some e → ∃ e0, s.map.lookup k = some e0 ∧ e0.SameValue e ∧
    e0.type ≠ .unknown ∧ ∀ g ∈ dups, k ∉ g.duplicates
  all : ∀ k e0, s.map.lookup k = some e0 → e0.type ≠ .unknown → (∀ g ∈ dups, k ∉ g.duplicates) →
    ∃ e, st3.entry d k = some e

/-- What the call does after the main loop. -/
def serializeRoot (E : Env) (utf8 : CStr → Bool) (st3 : State) (S d : Addr) (dups : List DupInfo)
    (r : State × List (CStr × Json)) : Except Fault (State × Json) := do
  let st5 ← rpcStructFree E r.1 d
  .ok (st5, .obj (Json.setNew utf8 (Json.setNew utf8 (Json.setNew utf8 (Json.setNew utf8 []
    (ascii "ID") (Json.string utf8 (rpcStructIdGet st3 S))) (ascii "type")
    (Json.string utf8 (ascii "RPC_struct"))) (ascii "serialised") (some (.obj r.2)))
    (ascii "duplicates") (some (.obj (dups.foldl (duplicateFields utf8) [])))))

/-- The call up to the main loop: it is over if the search for aliases fails. -/
theorem serialize_prepared (E : Env) (utf8 : CStr → Bool) {off : Finset Addr} {extra : Addr → Nat}
    {st : State} {S : Addr} {s : RpcStruct} (hinv : Inv off extra ∅ ∅ st) (hst : Stored st)
    (hoff : ∀ p ∈ off, ∃ x, st.heap.lookup p = some x) (hs : st.struct? S = some s) (n : Nat) :
    ∃ st1 d, Keeps ∅ st st1 ∧ st1.struct? S = some s ∧
      (∀ e, rpcStructFoundDuplicates E st1 S = .error e →
        rpcStructSerialize E utf8 (n + 1) st S = .error e) ∧
      ∀ dups, rpcStructFoundDuplicates E st1 S = .ok dups → ∃ st3 keys,
        Prepared off extra st s d dups st3 keys ∧
        rpcStructSerialize E utf8 (n + 1) st S =
          keys.foldlM (serializeField utf8 (rpcStructSerialize E utf8 n) d) (st3, []) >>=
            serializeRoot E utf8 st3 S d dups := by
  obtain ⟨st1, d, hcopy, hinv1, hst1, hcopied⟩ := copy_spec E hinv hst hs
  have htemp1 := hcopied.temp hs hinv hinv1 hst1 hoff
  have hframe1 := hcopied.frame_copy
  have hdead : st.heap.lookup d = none := by
    cases hl : st.heap.lookup d with
    | none => rfl
    | some x => exact absurd (.inr (.inl ⟨x, hl⟩)) hcopied.fresh
  have hSd : S ∉ ({d} : Set Addr) := by
    intro hm
    rw [Set.mem_singleton_iff.1 hm, struct?_eq_some, hdead] at hs; cases hs
  have hs1 : st1.struct? S = some s := (struct?_congr (hcopied.frame S hSd)).trans hs
  obtain ⟨c, hc, -, -, -⟩ := hcopied.map
  refine ⟨st1, d, hframe1.keeps.of_dead fun a ha => by rw [Set.mem_singleton_iff.1 ha, hdead], hs1,
    fun e he => ?_, fun dups hdups => ?_⟩
  · unfold rpcStructSerialize
    rw [hcopy]
    simp only [bind, Except.bind, he]
  · have hgroups : AliasGroups s s.map.keys dups := by
      rcases found_spec E hs1 with h | h
      · obtain ⟨dups', hok, hgroups⟩ := h
        rw [hdups] at hok
        cases hok
        exact hgroups
      · obtain ⟨-, e, he⟩ := h
        rw [hdups] at he; cases he
    -- what is left of the copy
    obtain ⟨st2, hloop2, htrim2⟩ := removeUnknown_loop (E := E) htemp1
      (E.order st1 d (((st1.struct? d).map fun s => s.map.keys).getD []))
    obtain ⟨st3, hloop3, htrim3⟩ := removeDuplicates_loop (E := E) htrim2 dups
    obtain ⟨c3, hc3⟩ := htrim3.temp.struct
    have hentry := dupless_entry hcopied htrim3 fun k e he => by
      rw [(E.order_perm ..).mem_iff, hc, Option.map_some, Option.getD_some, Table.mem_keys_iff]
      exact ⟨e, by rw [← entry_of_struct hc, he]⟩
    refine ⟨st3, E.order st3 d (((st3.struct? d).map fun s => s.map.keys).getD []),
      ⟨htrim3.temp, hframe1.trans htrim3.frame, hdead, hgroups, ?_, fun k => ?_,
        fun k => (hentry k).1, fun k => (hentry k).2⟩, ?_⟩
    · rw [hc3, (E.order_perm ..).nodup_iff]
      exact AList.keys_nodup c3.map
    · rw [(E.order_perm ..).mem_iff, hc3, Option.map_some, Option.getD_some, Table.mem_keys_iff,
        entry_of_struct hc3]
    · rw [rpcStructSerialize, hcopy]
      simp only [bind, Except.bind, hdups, hloop2, hloop3]
      rfl

/-! ### All levels -/

section Serialize
variable (E : Env) (utf8 : CStr → Bool) (bad : Prop) {off : Finset Addr} {st0 : State}
  {extra0 : Addr → Nat}

/-- The whole call. -/
theorem serialize_spec (h0 : Inv off extra0 ∅ ∅ st0) (hst0 : Stored st0)
    (hoff : ∀ p ∈ off, ∃ x, st0.heap.lookup p = some x) :
    ∀ (n : Nat) (extra : Addr → Nat) (st : State) (S : Addr), Inv off extra ∅ ∅ st → Stored st →
      Keeps ∅ st0 st → (∃ s, st0.struct? S = some s) →
      (¬ bad → DepthLE st0.Edge n S ∧ ∀ T, st0.Nested S T → ∀ st', Keeps ∅ st0 st' →
        ∃ dups, rpcStructFoundDuplicates E st' T = .ok dups) →
      Yields bad (rpcStructSerialize E utf8 n st S) (Sent utf8 off st0 extra st S) := by
  intro n
  induction n with
  | zero =>
    intro extra st S _ _ _ _ hbad
    refine .inr ⟨Classical.byContradiction fun hb => ?_, _, rfl⟩
    cases (hbad hb).1
  | succ n ih =>
    intro extra st S hinv hst hkeep hs hbad
    obtain ⟨s0, hs0⟩ := hs
    obtain ⟨s, hs, hid, hmap⟩ := hkeep.struct (Set.notMem_empty S) hs0
    obtain ⟨st1, d, hkeep1, hs1, hfail, hgo⟩ := serialize_prepared E utf8 hinv hst (fun p hp => by
      obtain ⟨x, hx⟩ := hoff p hp
      obtain ⟨x', hx', -⟩ := hkeep p x (Set.notMem_empty p) hx
      exact ⟨x', hx'⟩) hs n
    cases hdups : rpcStructFoundDuplicates E st1 S with
    | error e =>
      refine .inr ⟨Classical.byContradiction fun hb => ?_, e, hfail e hdups⟩
      obtain ⟨dups, hok⟩ := (hbad hb).2 S .refl st1 (hkeep.trans hkeep1)
      rw [hdups] at hok; cases hok
    | ok dups =>
      obtain ⟨st3, keys, hp, hrun⟩ := hgo dups hdups
      have hkeep3 : Keeps ∅ st0 st3 := hkeep.trans (hp.frame.keeps.of_dead fun a ha => by
        rw [Set.mem_singleton_iff.1 ha, hp.dead])
      rw [hrun]
      -- the main loop, and the release of the copy
      refine Yields.bind (Q := SentFields utf8 off st0 _ d st3 S keys)
        (serializeField_loop h0 hst0 hp.temp hkeep3 hp.nodup (fun k hk => ?_)
          fun extra' st' p hinv' hst' hkeep' hedge hp => ih extra' st' p hinv' hst' hkeep' hp
            fun hb => ?_) fun r hr => ?_
      · obtain ⟨e, he⟩ := (hp.keys k).1 hk
        obtain ⟨e0, he0, hv, hty, -⟩ := hp.entry k e he
        exact ⟨e0, e, by rw [entry_of_struct hs0, ← hmap, he0], he, hv, hty⟩
      · obtain ⟨hdepth, hfnd⟩ := hbad hb
        cases hdepth with
        | mk hdepth => exact ⟨hdepth p hedge, fun T hT => hfnd T (.head hedge hT)⟩
      · obtain ⟨extra4, htemp4, hframe4, hx4, hjson⟩ := hr
        obtain ⟨st5, hfree, hinv5, hst5, hframe5, hgone⟩ := htemp4.free E
        refine Yields.bind_ok hfree (.ok rfl ⟨extra4, hinv5, hst5, ?_, fun p => ?_, fun k p hh => ?_,
          fun hsend => ?_⟩)
        · exact ((hp.frame.trans (hframe4.mono (Set.empty_subset _))).trans
            hframe5).of_dead hp.dead hgone
        · exact (Nat.le_add_right ..).trans (hx4 p)
        · have hpos := (refs_pos_iff hs p).2 ⟨k, hh⟩
          have hle : extra p + s.refs p ≤ extra4 p := hx4 p
          omega
        · obtain ⟨hnd, hser, hrep⟩ := hjson hsend
          obtain ⟨id, hid0, hlen, hzero, hid'⟩ := hsend.self.id s0 hs0
          obtain ⟨s3, hs3, hids3, -⟩ := hkeep3.struct (Set.notMem_empty S) hs0
          have hget : rpcStructIdGet st3 S = id := by
            simp only [rpcStructIdGet, hs3, Option.map_some, Option.getD_some, hids3, hid0]
            exact takeWhile_string hzero
          rw [hget, hp.groups.foldl_duplicateFields fun k hk => ?_,
            root_eq hsend.ascii hid']
          · refine .struct (Set.mem_univ S) hs0 hid0 hlen ?_ fun k item e hk he =>
              hrep k item e hk (by rw [entry_of_struct hs0, he])
            refine (hp.groups.fields hnd (fun k k' e e' p he he' hp hp' => ?_) fun k => ?_).congr
              fun k => (hmap k).symm
            · exact hinv.same_target ((entry_of_struct hs k).trans he)
                ((entry_of_struct hs k').trans he') hp hp'
            · rw [hser, hp.keys]
              constructor
              · intro hk
                obtain ⟨e, he⟩ := hk
                obtain ⟨e0, he0, -, hty, hdup⟩ := hp.entry k e he
                exact ⟨e0, he0, hty, hdup⟩
              · intro hk
                obtain ⟨e0, he0, hty, hdup⟩ := hk
                exact hp.all k e0 he0 hty hdup
          · obtain ⟨e, he⟩ := Table.mem_keys_iff.1 hk
            exact hsend.self.key k e (by rw [entry_of_struct hs0, ← hmap, he])

end Serialize

end FfiRpc
