import Mathlib.Data.List.Nodup

/-!
# Computations that may fail

Rules for programs in `Except ε`, by the three ways a proof uses one.

* It is known to succeed: `bind_eq_ok` and `foldlM_ok` take a success apart.
* It is to be shown to succeed: `foldlM_inv` is the rule of a loop over a list
  of keys (the invariant sees the keys already visited), `foldlM_inv_nodup` the
  same for a list that visits each key once.
* It succeeds unless a part that is not under control fails: `Yields bad x Q`
  says that `x` returns a value satisfying `Q`, or `bad` holds and it fails, with
  `Yields.bind` and `Yields.foldlM` its rules. With `bad = False` it is total
  correctness, with `bad = True` partial correctness.
* It succeeds exactly when its input meets a condition: `SucceedsIff P x Q`, whose
  rules collect the condition along the program (`SucceedsIff.bind`,
  `SucceedsIff.foldlM`). `StopsIff e P x Q` names the failure as well.
-/
namespace FfiRpc
variable {ε σ κ α β γ : Type}

theorem bind_eq_ok {x : Except ε α} {f : α → Except ε β} {b : β} :
    (x >>= f) = .ok b ↔ ∃ a, x = .ok a ∧ f a = .ok b := by
  cases x with
  | error e => exact ⟨nofun, fun ⟨_, h, _⟩ => by cases h⟩
  | ok a => exact ⟨fun h => ⟨a, rfl, h⟩, fun ⟨_, h, h'⟩ => by cases h; exact h'⟩

theorem bind_eq_error {x : Except ε α} {f : α → Except ε β} {e : ε} :
    (x >>= f) = .error e ↔ x = .error e ∨ ∃ a, x = .ok a ∧ f a = .error e := by
  cases x with
  | error e' =>
    constructor
    · intro h
      cases h
      exact .inl rfl
    · intro h
      rcases h with h | ⟨a, ha, -⟩
      · cases h
        rfl
      · cases ha
  | ok a =>
    constructor
    · exact fun h => .inr ⟨a, rfl, h⟩
    · intro h
      rcases h with h | ⟨a', ha, h⟩
      · cases h
      · cases ha
        exact h

theorem map_fst_eq_ok {x : Except ε (α × β)} {a : α} (h : Prod.fst <$> x = .ok a) :
    ∃ b, x = .ok (a, b) := by
  cases x with
  | error e => cases h
  | ok r =>
    cases h
    exact ⟨r.2, rfl⟩

theorem ok_of_isOk {x : Except ε α} (h : x.isOk = true) : ∃ a, x = .ok a := by
  cases x with
  | error e => cases h
  | ok a => exact ⟨a, rfl⟩

/-- Loop rule: `I done s` holds with `done` the keys visited so far (last
first), and each step keeps it without failing. -/
theorem foldlM_inv {f : σ → κ → Except ε σ} (I : List κ → σ → Prop) :
    ∀ (ks done : List κ) (s : σ), I done s →
      (∀ d s k, k ∈ ks → I d s → ∃ s', f s k = .ok s' ∧ I (k :: d) s') →
      ∃ s', ks.foldlM f s = .ok s' ∧ I (ks.reverse ++ done) s'
  | [], done, s, h, _ => ⟨s, rfl, h⟩
  | k :: ks, done, s, h, hstep => by
    obtain ⟨s1, h1, hi⟩ := hstep done s k List.mem_cons_self h
    obtain ⟨s2, h2, hi2⟩ := foldlM_inv I ks (k :: done) s1 hi
      (fun d s k' hk => hstep d s k' (List.mem_cons_of_mem _ hk))
    refine ⟨s2, ?_, ?_⟩
    · rw [List.foldlM_cons, h1]; exact h2
    · simpa using hi2

/-- The loop rule over distinct keys: a step may use that its key is new. -/
theorem foldlM_inv_nodup {f : σ → κ → Except ε σ} (I : List κ → σ → Prop) :
    ∀ (ks done : List κ) (s : σ), ks.Nodup → (∀ k ∈ ks, k ∉ done) → I done s →
      (∀ d s k, k ∈ ks → k ∉ d → I d s → ∃ s', f s k = .ok s' ∧ I (k :: d) s') →
      ∃ s', ks.foldlM f s = .ok s' ∧ I (ks.reverse ++ done) s'
  | [], done, s, _, _, h, _ => ⟨s, rfl, h⟩
  | k :: ks, done, s, hnd, hdisj, h, hstep => by
    obtain ⟨hk, hnd⟩ := List.nodup_cons.1 hnd
    obtain ⟨s1, h1, hi⟩ := hstep done s k List.mem_cons_self (hdisj k List.mem_cons_self) h
    obtain ⟨s2, h2, hi2⟩ := foldlM_inv_nodup I ks (k :: done) s1 hnd
      (fun k' hk' hmem => by
        rcases List.mem_cons.1 hmem with rfl | hmem
        · exact hk hk'
        · exact hdisj k' (List.mem_cons_of_mem _ hk') hmem)
      hi (fun d s k' hk => hstep d s k' (List.mem_cons_of_mem _ hk))
    refine ⟨s2, ?_, ?_⟩
    · rw [List.foldlM_cons, h1]; exact h2
    · simpa using hi2

/-- What a loop keeps, if it succeeded. -/
theorem foldlM_ok_of_mem {f : σ → κ → Except ε σ} (I : σ → Prop) :
    ∀ (ks : List κ) (s s' : σ), (∀ s k s', k ∈ ks → I s → f s k = .ok s' → I s') → I s →
      ks.foldlM f s = .ok s' → I s'
  | [], s, s', _, h, hok => by cases hok; exact h
  | k :: ks, s, s', hstep, h, hok => by
    rw [List.foldlM_cons] at hok
    obtain ⟨s1, h1, hok⟩ := bind_eq_ok.1 hok
    exact foldlM_ok_of_mem I ks s1 s' (fun s k' s' hk => hstep s k' s' (List.mem_cons_of_mem _ hk))
      (hstep s k s1 List.mem_cons_self h h1) hok

theorem foldlM_ok {f : σ → κ → Except ε σ} (I : σ → Prop)
    (hstep : ∀ s k s', I s → f s k = .ok s' → I s') (ks : List κ) (s s' : σ) (h : I s)
    (hok : ks.foldlM f s = .ok s') : I s' :=
  foldlM_ok_of_mem I ks s s' (fun s k s' _ => hstep s k s') h hok

/-- What a loop over a list with distinct keys did, if it succeeded. -/
theorem foldlM_ok_keys {f : σ → κ → Except ε σ} (key : κ → γ) (I : List κ → σ → Prop) :
    ∀ (ks done : List κ) (s s' : σ), (ks.map key).Nodup → (∀ k ∈ ks, key k ∉ done.map key) →
      I done s →
      (∀ d s k s', k ∈ ks → key k ∉ d.map key → I d s → f s k = .ok s' → I (k :: d) s') →
      ks.foldlM f s = .ok s' → I (ks.reverse ++ done) s'
  | [], done, s, s', _, _, h, _, hok => by cases hok; exact h
  | k :: ks, done, s, s', hnd, hdisj, h, hstep, hok => by
    rw [List.map_cons, List.nodup_cons] at hnd
    rw [List.foldlM_cons] at hok
    obtain ⟨s1, h1, hok⟩ := bind_eq_ok.1 hok
    have hi := hstep done s k s1 List.mem_cons_self (hdisj k List.mem_cons_self) h h1
    have hrest := foldlM_ok_keys key I ks (k :: done) s1 s' hnd.2 (fun k' hk' hmem => by
        rw [List.map_cons] at hmem
        rcases List.mem_cons.1 hmem with h' | h'
        · exact hnd.1 (List.mem_map.2 ⟨k', hk', h'⟩)
        · exact hdisj k' (List.mem_cons_of_mem _ hk') h')
      hi (fun d s k' s' hk => hstep d s k' s' (List.mem_cons_of_mem _ hk)) hok
    simpa using hrest

/-- A loop whose body is replaced by one that succeeds wherever the old one does. -/
theorem foldlM_congr_ok {f g : σ → κ → Except ε σ}
    (hfg : ∀ s k s', f s k = .ok s' → g s k = .ok s') :
    ∀ {ks : List κ} {s s' : σ}, ks.foldlM f s = .ok s' → ks.foldlM g s = .ok s'
  | [], s, s', h => h
  | k :: ks, s, s', h => by
    rw [List.foldlM_cons] at h ⊢
    obtain ⟨s1, h1, h⟩ := bind_eq_ok.1 h
    rw [hfg s k s1 h1]
    exact foldlM_congr_ok hfg h

/-- A loop that succeeded made a successful turn for each of its keys. -/
theorem foldlM_ok_mem {f : σ → κ → Except ε σ} {k : κ} :
    ∀ {ks : List κ} {s s' : σ}, ks.foldlM f s = .ok s' → k ∈ ks →
      ∃ as bs s1 s2, ks = as ++ k :: bs ∧ as.foldlM f s = .ok s1 ∧ f s1 k = .ok s2 ∧
        bs.foldlM f s2 = .ok s'
  | [], _, _, _, hk => absurd hk List.not_mem_nil
  | k' :: ks, s, s', h, hk => by
    rw [List.foldlM_cons] at h
    obtain ⟨s1, h1, h⟩ := bind_eq_ok.1 h
    rcases List.mem_cons.1 hk with hk | hk
    · rw [hk]
      exact ⟨[], ks, s, s1, rfl, rfl, h1, h⟩
    · obtain ⟨as, bs, s2, s3, hks, has, hf⟩ := foldlM_ok_mem h hk
      refine ⟨k' :: as, bs, s2, s3, by rw [hks]; rfl, ?_, hf⟩
      rw [List.foldlM_cons, h1]
      exact has

/-- A loop that failed made a failing turn after successful ones. -/
theorem foldlM_error {f : σ → κ → Except ε σ} {e : ε} :
    ∀ {ks : List κ} {s : σ}, ks.foldlM f s = .error e →
      ∃ as k bs s1, ks = as ++ k :: bs ∧ as.foldlM f s = .ok s1 ∧ f s1 k = .error e
  | [], s, h => by cases h
  | k :: ks, s, h => by
    rw [List.foldlM_cons] at h
    cases h1 : f s k with
    | error e' =>
      rw [h1] at h
      cases h
      exact ⟨[], k, ks, s, rfl, rfl, h1⟩
    | ok s1 =>
      rw [h1] at h
      obtain ⟨as, k', bs, s2, hks, has, hf⟩ := foldlM_error (s := s1) h
      refine ⟨k :: as, k', bs, s2, by rw [hks]; rfl, ?_, hf⟩
      rw [List.foldlM_cons, h1]
      exact has

/-- Loops over lists whose elements are treated alike, position by position. -/
theorem foldlM_congr_get {f g : σ → κ → Except ε σ} :
    ∀ {l l' : List κ} (s : σ), l'.length = l.length →
      (∀ (i : Nat) k k' s, l[i]? = some k → l'[i]? = some k' → g s k' = f s k) →
      l'.foldlM g s = l.foldlM f s
  | [], [], s, _, _ => rfl
  | k :: l, k' :: l', s, hlen, h => by
    rw [List.foldlM_cons, List.foldlM_cons, h 0 k k' s rfl rfl]
    congr 1
    funext s1
    exact foldlM_congr_get s1 (Nat.succ.inj hlen) fun i k k' s hk hk' => h (i + 1) k k' s hk hk'

/-! ## Success up to failures elsewhere -/

/-- `x` returns a value satisfying `Q`, or it fails and `bad` holds. -/
def Yields (bad : Prop) (x : Except ε α) (Q : α → Prop) : Prop :=
  (∃ a, x = .ok a ∧ Q a) ∨ (bad ∧ ∃ e, x = .error e)

theorem Yields.ok {bad : Prop} {Q : α → Prop} {x : Except ε α} {a : α} (hx : x = .ok a)
    (h : Q a) : Yields bad x Q := .inl ⟨a, hx, h⟩

theorem Yields.mono {bad : Prop} {Q Q' : α → Prop} {x : Except ε α} (h : Yields bad x Q)
    (hQ : ∀ a, Q a → Q' a) : Yields bad x Q' := by
  rcases h with h | h
  · obtain ⟨a, hx, ha⟩ := h
    exact .inl ⟨a, hx, hQ a ha⟩
  · exact .inr h

theorem Yields.of_ok {bad : Prop} {Q : α → Prop} {x : Except ε α} {a : α} (h : Yields bad x Q)
    (hx : x = .ok a) : Q a := by
  rcases h with ⟨a', ha', hQ⟩ | ⟨-, e, he⟩
  · rw [hx] at ha'
    cases ha'
    exact hQ
  · rw [hx] at he; cases he

theorem Yields.bind {bad : Prop} {Q : α → Prop} {Q' : β → Prop} {x : Except ε α}
    {f : α → Except ε β} (h : Yields bad x Q) (hf : ∀ a, Q a → Yields bad (f a) Q') :
    Yields bad (x >>= f) Q' := by
  rcases h with h | h
  · obtain ⟨a, hx, ha⟩ := h
    rw [hx]
    exact hf a ha
  · obtain ⟨hb, e, hx⟩ := h
    rw [hx]
    exact .inr ⟨hb, e, rfl⟩

theorem Yields.bind_ok {bad : Prop} {Q : β → Prop} {x : Except ε α} {f : α → Except ε β} {a : α}
    (hx : x = .ok a) (h : Yields bad (f a) Q) : Yields bad (x >>= f) Q := by
  rw [hx]
  exact h

/-- The loop rule over distinct keys, up to failures elsewhere. -/
theorem Yields.foldlM {bad : Prop} {f : σ → κ → Except ε σ} (I : List κ → σ → Prop) :
    ∀ (ks done : List κ) (s : σ), ks.Nodup → (∀ k ∈ ks, k ∉ done) → I done s →
      (∀ d s k, k ∈ ks → k ∉ d → I d s → Yields bad (f s k) (I (k :: d))) →
      Yields bad (ks.foldlM f s) (I (ks.reverse ++ done))
  | [], done, s, _, _, h, _ => .ok rfl h
  | k :: ks, done, s, hnd, hdisj, h, hstep => by
    obtain ⟨hk, hnd⟩ := List.nodup_cons.1 hnd
    rw [List.foldlM_cons]
    refine (hstep done s k List.mem_cons_self (hdisj k List.mem_cons_self) h).bind fun s1 hi => ?_
    have hrest := Yields.foldlM I ks (k :: done) s1 hnd
      (fun k' hk' hmem => by
        rcases List.mem_cons.1 hmem with h' | h'
        · subst h'; exact hk hk'
        · exact hdisj k' (List.mem_cons_of_mem _ hk') h')
      hi (fun d s k' hk => hstep d s k' (List.mem_cons_of_mem _ hk))
    simpa using hrest

/-! ## Success under a condition -/

/-- `x` returns a value satisfying `Q` if `P` holds, and fails if not. -/
def SucceedsIff (P : Prop) (x : Except ε α) (Q : α → Prop) : Prop :=
  (P ∧ ∃ a, x = .ok a ∧ Q a) ∨ (¬ P ∧ ∃ e, x = .error e)

section SucceedsIff
variable {P P' : Prop} {x : Except ε α} {Q : α → Prop}

theorem SucceedsIff.ok {a : α} (hP : P) (hx : x = .ok a) (h : Q a) : SucceedsIff P x Q :=
  .inl ⟨hP, a, hx, h⟩

theorem SucceedsIff.error {e : ε} (hP : ¬ P) (hx : x = .error e) : SucceedsIff P x Q :=
  .inr ⟨hP, e, hx⟩

theorem SucceedsIff.iff (h : SucceedsIff P x Q) : (∃ a, x = .ok a ∧ Q a) ↔ P := by
  rcases h with h | h
  · exact ⟨fun _ => h.1, fun _ => h.2⟩
  · obtain ⟨hP, e, hx⟩ := h
    refine ⟨fun ha => ?_, fun hP' => absurd hP' hP⟩
    obtain ⟨a, ha, -⟩ := ha
    rw [hx] at ha; cases ha

theorem SucceedsIff.of_ok {a : α} (h : SucceedsIff P x Q) (hx : x = .ok a) : Q a := by
  rcases h with ⟨-, a', ha', hQ⟩ | ⟨-, e, he⟩
  · rw [hx] at ha'
    cases ha'
    exact hQ
  · rw [hx] at he; cases he

theorem SucceedsIff.mono {Q' : α → Prop} (h : SucceedsIff P x Q) (hQ : ∀ a, Q a → Q' a) :
    SucceedsIff P x Q' := by
  rcases h with h | h
  · obtain ⟨hP, a, hx, ha⟩ := h
    exact .inl ⟨hP, a, hx, hQ a ha⟩
  · exact .inr h

theorem SucceedsIff.congr (h : SucceedsIff P x Q) (hP : P' ↔ P) : SucceedsIff P' x Q := by
  unfold SucceedsIff
  rw [hP]
  exact h

theorem SucceedsIff.bind {f : α → Except ε β} {Q' : β → Prop} (h : SucceedsIff P x Q)
    (hf : ∀ a, Q a → SucceedsIff P' (f a) Q') : SucceedsIff (P ∧ P') (x >>= f) Q' := by
  rcases h with h | h
  · obtain ⟨hP, a, hx, ha⟩ := h
    rw [hx]
    exact (hf a ha).congr (and_iff_right hP)
  · obtain ⟨hP, e, hx⟩ := h
    rw [hx]
    exact .inr ⟨fun hc => hP hc.1, e, rfl⟩

/-- The condition is settled by the first part. -/
theorem SucceedsIff.bind_ok {f : α → Except ε β} {Q' : β → Prop} (h : SucceedsIff P x Q)
    (hf : ∀ a, Q a → ∃ b, f a = .ok b ∧ Q' b) : SucceedsIff P (x >>= f) Q' := by
  have hf' : ∀ a, Q a → SucceedsIff True (f a) Q' := fun a ha => by
    obtain ⟨b, hb, hQ⟩ := hf a ha
    exact .ok trivial hb hQ
  exact (h.bind hf').congr (and_iff_left trivial).symm

/-- The loop rule over a list whose elements have distinct keys. -/
theorem SucceedsIff.foldlM {f : σ → κ → Except ε σ} (key : κ → γ) (C : κ → Prop)
    (I : List κ → σ → Prop) :
    ∀ (ks done : List κ) (s : σ), (ks.map key).Nodup → (∀ k ∈ ks, key k ∉ done.map key) →
      I done s →
      (∀ d s k, k ∈ ks → key k ∉ d.map key → I d s → SucceedsIff (C k) (f s k) (I (k :: d))) →
      SucceedsIff (∀ k ∈ ks, C k) (ks.foldlM f s) (I (ks.reverse ++ done))
  | [], done, s, _, _, h, _ => .ok nofun rfl h
  | k :: ks, done, s, hnd, hdisj, h, hstep => by
    rw [List.map_cons, List.nodup_cons] at hnd
    rw [List.foldlM_cons]
    have hall : (∀ k' ∈ k :: ks, C k') ↔ C k ∧ ∀ k' ∈ ks, C k' := List.forall_mem_cons
    refine SucceedsIff.congr (SucceedsIff.bind (hstep done s k List.mem_cons_self
      (hdisj k List.mem_cons_self) h) fun s1 hi => ?_) hall
    have hrest := SucceedsIff.foldlM key C I ks (k :: done) s1 hnd.2
      (fun k' hk' hmem => by
        rw [List.map_cons] at hmem
        rcases List.mem_cons.1 hmem with h' | h'
        · exact hnd.1 (List.mem_map.2 ⟨k', hk', h'⟩)
        · exact hdisj k' (List.mem_cons_of_mem _ hk') h')
      hi (fun d s k' hk => hstep d s k' (List.mem_cons_of_mem _ hk))
    simpa using hrest

end SucceedsIff

/-! ## Success, or one known failure -/

/-- `x` returns a value satisfying `Q` if `P` holds, and fails with `e` if not. -/
def StopsIff (e : ε) (P : Prop) (x : Except ε α) (Q : α → Prop) : Prop :=
  (P ∧ ∃ a, x = .ok a ∧ Q a) ∨ (¬ P ∧ x = .error e)

theorem StopsIff.iff {e : ε} {P : Prop} {x : Except ε α} {Q : α → Prop} (h : StopsIff e P x Q) :
    x ≠ .error e ↔ P := by
  rcases h with ⟨hP, a, ha, -⟩ | ⟨hP, hx⟩
  · rw [ha]
    exact iff_of_true nofun hP
  · rw [hx]
    exact iff_of_false (fun h => h rfl) hP

theorem StopsIff.congr {e : ε} {P P' : Prop} {x : Except ε α} {Q : α → Prop}
    (h : StopsIff e P x Q) (hP : P' ↔ P) : StopsIff e P' x Q := by
  unfold StopsIff
  rw [hP]
  exact h

/-- A loop whose body does not depend on what came before. -/
theorem StopsIff.foldlM_each {f : σ → κ → Except ε σ} {e : ε} {C : κ → Prop} :
    ∀ (ks : List κ) (s : σ), (∀ s k, k ∈ ks → StopsIff e (C k) (f s k) fun _ => True) →
      StopsIff e (∀ k ∈ ks, C k) (ks.foldlM f s) fun _ => True
  | [], s, _ => .inl ⟨nofun, s, rfl, trivial⟩
  | k :: ks, s, h => by
    rw [List.foldlM_cons]
    rcases h s k List.mem_cons_self with ⟨hC, s1, h1, -⟩ | ⟨hC, h1⟩
    · rw [h1]
      refine (StopsIff.foldlM_each ks s1 fun s' k' hk' => h s' k' (List.mem_cons_of_mem _ hk')).congr ?_
      rw [List.forall_mem_cons, and_iff_right hC]
    · rw [h1]
      exact .inr ⟨fun hc => hC (hc k List.mem_cons_self), rfl⟩

/-- The loop rule over distinct keys: the first key that does not meet `C` ends it. -/
theorem StopsIff.foldlM {f : σ → κ → Except ε σ} {e : ε} (C : κ → Prop) (I : List κ → σ → Prop) :
    ∀ (ks done : List κ) (s : σ), ks.Nodup → (∀ k ∈ ks, k ∉ done) → I done s →
      (∀ d s k, k ∈ ks → k ∉ d → (∀ k' ∈ d, k' ∉ done → C k') → I d s →
        StopsIff e (C k) (f s k) (I (k :: d))) →
      StopsIff e (∀ k ∈ ks, C k) (ks.foldlM f s) (I (ks.reverse ++ done))
  | [], done, s, _, _, h, _ => .inl ⟨nofun, s, rfl, h⟩
  | k :: ks, done, s, hnd, hdisj, h, hstep => by
    obtain ⟨hk, hnd⟩ := List.nodup_cons.1 hnd
    have hall : (∀ k' ∈ k :: ks, C k') ↔ C k ∧ ∀ k' ∈ ks, C k' := List.forall_mem_cons
    have hfirst := hstep done s k List.mem_cons_self (hdisj k List.mem_cons_self)
      (fun k' hk' hno => absurd hk' hno) h
    rw [List.foldlM_cons]
    rcases hfirst with ⟨hC, s1, h1, hi⟩ | ⟨hC, h1⟩
    · rw [h1]
      have hrest := StopsIff.foldlM C I ks (k :: done) s1 hnd
        (fun k' hk' hmem => by
          rcases List.mem_cons.1 hmem with h' | h'
          · subst h'; exact hk hk'
          · exact hdisj k' (List.mem_cons_of_mem _ hk') h')
        hi (fun d s k' hk' hnew hd => hstep d s k' (List.mem_cons_of_mem _ hk') hnew
          fun k2 hk2 hno => by
            by_cases h2 : k2 = k
            · rw [h2]; exact hC
            · exact hd k2 hk2 fun hm => (List.mem_cons.1 hm).elim h2 hno)
      rw [show (k :: ks).reverse ++ done = ks.reverse ++ k :: done by simp]
      exact hrest.congr (hall.trans (and_iff_right hC))
    · rw [h1]
      exact .inr ⟨fun hc => hC (hc k List.mem_cons_self), rfl⟩

end FfiRpc
