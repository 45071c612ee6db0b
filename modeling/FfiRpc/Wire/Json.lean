import FfiRpc.Store.Types

/-!
# JSON values

The part of `jansson` the code uses. Objects are lists of fields with distinct
keys, in insertion order (`Document` carries the distinctness at every level);
`json_int_t` is a 64-bit word; a real is the eight bytes of its `double`. Which
byte strings are valid UTF-8 is a parameter (`utf8`): keys and strings that are
not are refused.
-/
namespace FfiRpc

inductive Json where
  | obj (fields : List (CStr × Json))
  | arr (items : List Json)
  | str (s : CStr)
  | int (i : BitVec 64)
  | real (bits : List UInt8)
  | bool (b : Bool)
  | null

namespace Json

/-- `json_object_get` -/
def get (j : Json) (key : CStr) : Option Json :=
  match j with
  | obj fields => fields.lookup key
  | _ => none

/-- `json_string_value`: `NULL` unless it is a string -/
def stringValue : Option Json → Option CStr
  | some (str s) => some s
  | _ => none

/-- `json_integer_value` -/
def integerValue : Option Json → BitVec 64
  | some (int i) => i
  | _ => 0

/-- The elements `json_array_foreach` visits. -/
def items : Option Json → List Json
  | some (arr l) => l
  | _ => []

/-- The fields `json_object_foreach` visits. -/
def fields : Json → List (CStr × Json)
  | obj fs => fs
  | _ => []

/-- `json_object_set_new` on a list of fields; a `NULL` value or a key that is
not UTF-8 is refused. -/
def setNew (utf8 : CStr → Bool) (fs : List (CStr × Json)) (key : CStr) (value : Option Json) :
    List (CStr × Json) :=
  match value with
  | none => fs
  | some v =>
    if utf8 key then
      if key ∈ fs.map Prod.fst then fs.map fun f => if f.1 = key then (key, v) else f
      else fs ++ [(key, v)]
    else fs

/-- `json_string` -/
def string (utf8 : CStr → Bool) (s : CStr) : Option Json := if utf8 s then some (str s) else none

/-! ## Size and shape -/

mutual
/-- Nesting depth. -/
def depth : Json → Nat
  | obj fs => depthFields fs + 1
  | arr l => depthItems l + 1
  | _ => 0
def depthFields : List (CStr × Json) → Nat
  | [] => 0
  | (_, j) :: t => max j.depth (depthFields t)
def depthItems : List Json → Nat
  | [] => 0
  | j :: t => max j.depth (depthItems t)
end

mutual
/-- Keys are distinct, at every level. -/
def Distinct : Json → Prop
  | obj fs => (fs.map Prod.fst).Nodup ∧ DistinctFields fs
  | arr l => DistinctItems l
  | _ => True
def DistinctFields : List (CStr × Json) → Prop
  | [] => True
  | (_, j) :: t => j.Distinct ∧ DistinctFields t
def DistinctItems : List Json → Prop
  | [] => True
  | j :: t => j.Distinct ∧ DistinctItems t
end

theorem depth_field {fs : List (CStr × Json)} {k : CStr} {j : Json} (h : (k, j) ∈ fs) :
    j.depth ≤ depthFields fs := by
  induction fs with
  | nil => cases h
  | cons f fs ih =>
    obtain ⟨k', j'⟩ := f
    simp only [depthFields]
    rcases List.mem_cons.1 h with h | h
    · cases h; exact Nat.le_max_left ..
    · exact (ih h).trans (Nat.le_max_right ..)

theorem depth_item {l : List Json} {j : Json} (h : j ∈ l) : j.depth ≤ depthItems l := by
  induction l with
  | nil => cases h
  | cons j' l ih =>
    simp only [depthItems]
    rcases List.mem_cons.1 h with h | h
    · subst h; exact Nat.le_max_left ..
    · exact (ih h).trans (Nat.le_max_right ..)

theorem distinct_field {fs : List (CStr × Json)} {k : CStr} {j : Json} (h : DistinctFields fs)
    (hm : (k, j) ∈ fs) : j.Distinct := by
  induction fs with
  | nil => cases hm
  | cons f fs ih =>
    obtain ⟨k', j'⟩ := f
    simp only [DistinctFields] at h
    rcases List.mem_cons.1 hm with hm | hm
    · cases hm; exact h.1
    · exact ih h.2 hm

theorem distinct_item {l : List Json} {j : Json} (h : DistinctItems l) (hm : j ∈ l) :
    j.Distinct := by
  induction l with
  | nil => cases hm
  | cons j' l ih =>
    simp only [DistinctItems] at h
    rcases List.mem_cons.1 hm with hm | hm
    · subst hm; exact h.1
    · exact ih h.2 hm

theorem lookup_mem {fs : List (CStr × Json)} {k : CStr} {j : Json} (h : fs.lookup k = some j) :
    (k, j) ∈ fs := by
  induction fs with
  | nil => cases h
  | cons f fs ih =>
    obtain ⟨k', j'⟩ := f
    rw [List.lookup_cons] at h
    split at h
    · rename_i hk
      rw [beq_iff_eq] at hk
      cases h; subst hk
      exact List.mem_cons_self
    · exact List.mem_cons_of_mem _ (ih h)

theorem lookup_of_mem {fs : List (CStr × Json)} {k : CStr} {j : Json}
    (hnd : (fs.map Prod.fst).Nodup) (h : (k, j) ∈ fs) : fs.lookup k = some j := by
  induction fs with
  | nil => cases h
  | cons f fs ih =>
    obtain ⟨k', j'⟩ := f
    rw [List.map_cons, List.nodup_cons] at hnd
    rw [List.lookup_cons]
    rcases List.mem_cons.1 h with h1 | h1
    · cases h1
      rw [beq_self_eq_true]
    · have hne : k ≠ k' := by
        intro hk
        subst hk
        exact hnd.1 (List.mem_map.2 ⟨_, h1, rfl⟩)
      rw [beq_eq_false_iff_ne.2 hne]
      exact ih hnd.2 h1

theorem depth_get {j v : Json} {key : CStr} (h : j.get key = some v) : v.depth < j.depth := by
  cases j with
  | obj fs =>
    have := depth_field (lookup_mem h)
    simp only [depth]
    omega
  | _ => cases h

theorem distinct_get {j v : Json} {key : CStr} (hj : j.Distinct) (h : j.get key = some v) :
    v.Distinct := by
  cases j with
  | obj fs => exact distinct_field hj.2 (lookup_mem h)
  | _ => cases h

theorem nodup_fields {j : Json} (h : j.Distinct) : (j.fields.map Prod.fst).Nodup := by
  cases j with
  | obj fs => exact h.1
  | _ => exact List.nodup_nil

theorem distinct_of_mem {j : Json} (h : j.Distinct) {f : CStr × Json} (hf : f ∈ j.fields) :
    f.2.Distinct := by
  cases j with
  | obj fs => exact distinct_field h.2 hf
  | _ => cases hf

theorem depth_of_mem {j : Json} {f : CStr × Json} (hf : f ∈ j.fields) : f.2.depth < j.depth := by
  cases j with
  | obj fs => exact Nat.lt_succ_of_le (depth_field hf)
  | _ => cases hf

theorem mem_keys_iff {fs : List (CStr × Json)} {k : CStr} :
    k ∈ fs.map Prod.fst ↔ ∃ j, fs.lookup k = some j := by
  constructor
  · intro hk
    induction fs with
    | nil => cases hk
    | cons f fs ih =>
      rw [List.lookup_cons]
      split
      · exact ⟨_, rfl⟩
      · rename_i hne
        rw [beq_eq_false_iff_ne] at hne
        exact ih ((List.mem_cons.1 hk).resolve_left hne)
  · intro hk
    obtain ⟨j, hj⟩ := hk
    exact List.mem_map.2 ⟨_, lookup_mem hj, rfl⟩

/-- A new, valid key goes to the end. -/
theorem setNew_new {utf8 : CStr → Bool} {fs : List (CStr × Json)} {k : CStr} {v : Json}
    (hu : utf8 k = true) (hk : k ∉ fs.map Prod.fst) :
    setNew utf8 fs k (some v) = fs ++ [(k, v)] := by
  simp only [setNew, if_pos hu, if_neg hk]

theorem nodup_concat {fs : List (CStr × Json)} {k : CStr} {v : Json}
    (hnd : (fs.map Prod.fst).Nodup) (hk : k ∉ fs.map Prod.fst) :
    ((fs ++ [(k, v)]).map Prod.fst).Nodup := by
  rw [List.map_append, List.nodup_append]
  refine ⟨hnd, List.nodup_singleton k, fun x hx y hy hxy => hk ?_⟩
  have hyk : y = k := List.mem_singleton.1 hy
  rw [← hyk, ← hxy]
  exact hx

theorem lookup_concat {fs : List (CStr × Json)} {k k' : CStr} {v : Json}
    (hk : k ∉ fs.map Prod.fst) :
    (fs ++ [(k, v)]).lookup k' = if k' = k then some v else fs.lookup k' := by
  rw [List.lookup_append, List.lookup_cons, List.lookup_nil]
  by_cases h : k' = k
  · subst h
    have hnone : fs.lookup k' = none := by
      cases hl : fs.lookup k' with
      | none => rfl
      | some j => exact absurd (mem_keys_iff.2 ⟨j, hl⟩) hk
    rw [hnone, beq_self_eq_true, if_pos rfl]
    rfl
  · rw [beq_eq_false_iff_ne.2 h, if_neg h, Option.or_none]

/-- Fields with new, valid keys go to the end. -/
theorem foldl_setNew {utf8 : CStr → Bool} (l acc : List (CStr × Json))
    (hutf8 : ∀ f ∈ l, utf8 f.1 = true) (hnd : ((acc ++ l).map Prod.fst).Nodup) :
    l.foldl (fun fs f => setNew utf8 fs f.1 (some f.2)) acc = acc ++ l := by
  induction l generalizing acc with
  | nil => rw [List.append_nil]; rfl
  | cons f l ih =>
    have hnew : f.1 ∉ acc.map Prod.fst := by
      rw [List.map_append, List.nodup_append] at hnd
      intro hm
      exact hnd.2.2 _ hm _ (List.mem_map.2 ⟨f, List.mem_cons_self, rfl⟩) rfl
    have hstep : setNew utf8 acc f.1 (some f.2) = acc ++ [f] :=
      setNew_new (hutf8 f List.mem_cons_self) hnew
    rw [List.foldl_cons, hstep, ih (acc ++ [f]) (fun g hg => hutf8 g (List.mem_cons_of_mem _ hg))
      (by rwa [List.append_assoc]), List.append_assoc]
    rfl

end Json

/-- A document: what `jansson` holds in memory. -/
structure Document where
  json : Json
  distinct : json.Distinct

end FfiRpc
