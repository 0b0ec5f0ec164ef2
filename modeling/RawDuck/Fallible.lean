import Mathlib.Data.List.Forall2

/-!
# RawDuck.Fallible

A small library for programs that may raise: when a computation in `Except`
succeeds, and with what.

* `bind_eq_ok` — a sequence succeeds when both parts do;
* `mapM_eq_ok` — mapping a fallible function over a list succeeds exactly when
  it does at every element, so results can be compared element by element;
* `foldlM_rule` — the rule for a fallible loop;
* `run_bind_eq_ok` / `run_bind_eq_error` — the same for computations that keep
  their state when they raise;
* `Leaves` — what such a computation leaves, whether it raises or not;
* `Preserves` — it keeps a property of the state, with a rule for each way to
  build it;
* `Agree` — two of them do the same from a state.
-/

namespace Fallible

universe u

variable {ε α β : Type u}

theorem bind_eq_ok {x : Except ε α} {f : α → Except ε β} {b : β} :
    x >>= f = .ok b ↔ ∃ a, x = .ok a ∧ f a = .ok b := by
  cases x with
  | error e =>
      constructor
      · exact fun h => nomatch h
      · rintro ⟨a, h, -⟩
        exact nomatch h
  | ok a =>
      constructor
      · exact fun h => ⟨a, rfl, h⟩
      · rintro ⟨a', h, hb⟩
        cases h
        exact hb

@[simp] theorem pure_eq_ok {a b : α} : (pure a : Except ε α) = .ok b ↔ a = b :=
  ⟨Except.ok.inj, congrArg _⟩

/-- A fallible map succeeds exactly when every element does. -/
theorem mapM_eq_ok {f : α → Except ε β} {as : List α} {bs : List β} :
    as.mapM f = .ok bs ↔ List.Forall₂ (fun a b => f a = .ok b) as bs := by
  induction as generalizing bs with
  | nil =>
      rw [List.mapM_nil, pure_eq_ok, List.forall₂_nil_left_iff]
      exact eq_comm
  | cons a as ih =>
      rw [List.mapM_cons, bind_eq_ok, List.forall₂_cons_left_iff]
      constructor
      · rintro ⟨b, hb, h⟩
        obtain ⟨bs', hbs, h⟩ := bind_eq_ok.mp h
        exact ⟨b, bs', hb, ih.mp hbs, (pure_eq_ok.mp h).symm⟩
      · rintro ⟨b, bs', hb, hbs, rfl⟩
        exact ⟨b, hb, bind_eq_ok.mpr ⟨bs', ih.mpr hbs, rfl⟩⟩

/-- The same for a map that may have no result. -/
theorem mapM_eq_some {f : α → Option β} {as : List α} {bs : List β} :
    as.mapM f = some bs ↔ List.Forall₂ (fun a b => f a = some b) as bs := by
  induction as generalizing bs with
  | nil =>
      rw [List.mapM_nil, List.forall₂_nil_left_iff, Option.pure_def, Option.some.injEq]
      exact eq_comm
  | cons a as ih =>
      rw [List.mapM_cons, List.forall₂_cons_left_iff, Option.bind_eq_bind,
        Option.bind_eq_some_iff]
      constructor
      · rintro ⟨b, hb, h⟩
        obtain ⟨bs', hbs, h⟩ := Option.bind_eq_some_iff.mp h
        exact ⟨b, bs', hb, ih.mp hbs, (Option.some.inj h).symm⟩
      · rintro ⟨b, bs', hb, hbs, rfl⟩
        exact ⟨b, hb, Option.bind_eq_some_iff.mpr ⟨bs', ih.mpr hbs, rfl⟩⟩

theorem forall₂_mem_left {R : α → β → Prop} {as : List α} {bs : List β}
    (h : List.Forall₂ R as bs) {a : α} (ha : a ∈ as) : ∃ b ∈ bs, R a b := by
  induction h with
  | nil => exact nomatch ha
  | cons hr _ ih =>
      rcases List.mem_cons.mp ha with rfl | ha
      · exact ⟨_, List.mem_cons_self, hr⟩
      · obtain ⟨b, hb, hr⟩ := ih ha
        exact ⟨b, List.mem_cons_of_mem _ hb, hr⟩

theorem forall₂_mem_right {R : α → β → Prop} {as : List α} {bs : List β}
    (h : List.Forall₂ R as bs) {b : β} (hb : b ∈ bs) : ∃ a ∈ as, R a b := by
  induction h with
  | nil => exact nomatch hb
  | cons hr _ ih =>
      rcases List.mem_cons.mp hb with rfl | hb
      · exact ⟨_, List.mem_cons_self, hr⟩
      · obtain ⟨a, ha, hr⟩ := ih hb
        exact ⟨a, List.mem_cons_of_mem _ ha, hr⟩

/-- A fallible map succeeds on a list exactly when it does on its parts. -/
theorem mapM_append_eq_ok {f : α → Except ε β} {as as' : List α} {bs : List β} :
    (as ++ as').mapM f = .ok bs ↔
      ∃ cs cs', as.mapM f = .ok cs ∧ as'.mapM f = .ok cs' ∧ bs = cs ++ cs' := by
  rw [List.mapM_append, bind_eq_ok]
  constructor
  · rintro ⟨cs, hcs, h⟩
    obtain ⟨cs', hcs', h⟩ := bind_eq_ok.mp h
    exact ⟨cs, cs', hcs, hcs', (pure_eq_ok.mp h).symm⟩
  · rintro ⟨cs, cs', hcs, hcs', rfl⟩
    exact ⟨cs, hcs, bind_eq_ok.mpr ⟨cs', hcs', rfl⟩⟩

theorem mapM_eq_ok_iff_getElem {f : α → Except ε β} {as : List α} {bs : List β} :
    as.mapM f = .ok bs ↔ as.length = bs.length ∧
      ∀ i (h : i < as.length) (h' : i < bs.length), f as[i] = .ok bs[i] := by
  rw [mapM_eq_ok, List.forall₂_iff_get]
  rfl

theorem mapM_congr {f g : α → Except ε β} {as : List α} (h : ∀ a ∈ as, f a = g a) :
    as.mapM f = as.mapM g := by
  induction as with
  | nil => rfl
  | cons a as ih =>
      rw [List.mapM_cons, List.mapM_cons, h a List.mem_cons_self,
        ih fun a ha => h a (List.mem_cons_of_mem _ ha)]

theorem exists_mapM_eq_ok (f : α → Except ε β) (as : List α)
    (h : ∀ a ∈ as, ∃ b, f a = .ok b) : ∃ bs, as.mapM f = .ok bs := by
  induction as with
  | nil => exact ⟨[], rfl⟩
  | cons a as ih =>
      obtain ⟨b, hb⟩ := h a List.mem_cons_self
      obtain ⟨bs, hbs⟩ := ih fun a ha => h a (List.mem_cons_of_mem _ ha)
      exact ⟨b :: bs, mapM_eq_ok.mpr (.cons hb (mapM_eq_ok.mp hbs))⟩

/-- What chunks of a list are made of, element by element. -/
theorem mapM_flatten_of_chunks {chunk : List α → Except ε (List β)} {f : α → Except ε β}
    (hchunk : ∀ as bs, chunk as = .ok bs → as.mapM f = .ok bs) {ass : List (List α)}
    {bss : List (List β)} (h : ass.mapM chunk = .ok bss) :
    ass.flatten.mapM f = .ok bss.flatten := by
  induction ass generalizing bss with
  | nil =>
      rw [List.mapM_nil, pure_eq_ok] at h
      rw [← h]
      rfl
  | cons as ass ih =>
      rw [mapM_eq_ok, List.forall₂_cons_left_iff] at h
      obtain ⟨bs, rest, hbs, hrest, rfl⟩ := h
      exact mapM_append_eq_ok.mpr ⟨bs, rest.flatten, hchunk _ _ hbs, ih (mapM_eq_ok.mpr hrest), rfl⟩

/-- Chunks of a list exist when its elements map. -/
theorem exists_chunks_of_flatten {chunk : List α → Except ε (List β)} {f : α → Except ε β}
    (hchunk : ∀ as bs, as.mapM f = .ok bs → ∃ bs', chunk as = .ok bs') {ass : List (List α)}
    {bs : List β} (h : ass.flatten.mapM f = .ok bs) : ∃ bss, ass.mapM chunk = .ok bss := by
  refine exists_mapM_eq_ok chunk ass fun as has => ?_
  have hbs := exists_mapM_eq_ok f as fun a ha => by
    obtain ⟨b, -, hb⟩ := forall₂_mem_left (mapM_eq_ok.mp h) (List.mem_flatten_of_mem has ha)
    exact ⟨b, hb⟩
  obtain ⟨bs', hbs'⟩ := hbs
  exact hchunk _ _ hbs'

/-- **Loop rule**: what holds before a fallible loop and is carried over each
turn that succeeds, as a property of the elements done, holds of all of them
after it. -/
theorem foldlM_rule {σ : Type u} {f : σ → α → Except ε σ} {as : List α}
    (inv : List α → σ → Prop)
    (hstep : ∀ done a rest s s', as = done ++ a :: rest → inv done s → f s a = .ok s' →
      inv (done ++ [a]) s')
    {s s' : σ} (hs : inv [] s) (h : as.foldlM f s = .ok s') : inv as s' := by
  have hrun : ∀ (rest done : List α) (t : σ), as = done ++ rest → inv done t →
      rest.foldlM f t = .ok s' → inv as s' := by
    intro rest
    induction rest with
    | nil =>
        intro done t has ht hr
        rw [List.foldlM_nil, pure_eq_ok] at hr
        rw [List.append_nil] at has
        exact hr ▸ has ▸ ht
    | cons a rest ih =>
        intro done t has ht hr
        rw [List.foldlM_cons] at hr
        obtain ⟨u, hu, hr⟩ := bind_eq_ok.mp hr
        exact ih (done ++ [a]) u (by rw [has, List.append_assoc]; rfl)
          (hstep done a rest t u has ht hu) hr
  exact hrun as [] s rfl hs h

/-- A loop succeeds when each of its turns does, as long as what is carried over from
turn to turn holds. -/
theorem exists_foldlM_eq_ok {σ : Type u} {f : σ → α → Except ε σ} {as : List α}
    (inv : List α → σ → Prop)
    (hstep : ∀ done a rest s, as = done ++ a :: rest → inv done s →
      ∃ s', f s a = .ok s' ∧ inv (done ++ [a]) s')
    {s : σ} (hs : inv [] s) : ∃ s', as.foldlM f s = .ok s' := by
  have hrun : ∀ (rest done : List α) (t : σ), as = done ++ rest → inv done t →
      ∃ s', rest.foldlM f t = .ok s' := by
    intro rest
    induction rest with
    | nil => exact fun _ t _ _ => ⟨t, rfl⟩
    | cons a rest ih =>
        intro done t has ht
        obtain ⟨u, hu, hinv⟩ := hstep done a rest t has ht
        obtain ⟨s', hs'⟩ := ih (done ++ [a]) u (by rw [has, List.append_assoc]; rfl) hinv
        exact ⟨s', by rw [List.foldlM_cons, hu]; exact hs'⟩
  exact hrun as [] s rfl hs

/-! ## computations that keep their state when they raise -/

section State

variable {σ : Type u} {x : EStateM ε σ α} {f : α → EStateM ε σ β} {s s' : σ}

theorem run_bind_eq_ok {b : β} :
    (x >>= f) s = .ok b s' ↔ ∃ a t, x s = .ok a t ∧ f a t = .ok b s' := by
  change EStateM.bind x f s = _ ↔ _
  rw [EStateM.bind]
  cases x s with
  | ok a t =>
      constructor
      · exact fun h => ⟨a, t, rfl, h⟩
      · rintro ⟨a', t', h, hf⟩
        cases h
        exact hf
  | error e t =>
      constructor
      · exact fun h => nomatch h
      · rintro ⟨a, t', h, -⟩
        exact nomatch h

theorem run_bind_of_ok {a : α} {t : σ} (h : x s = .ok a t) : (x >>= f) s = f a t := by
  change EStateM.bind x f s = _
  rw [EStateM.bind, h]

theorem run_get_bind {f : σ → EStateM ε σ β} : (get >>= f) s = f s s := rfl

theorem run_bind_eq_error {e : ε} :
    (x >>= f) s = .error e s' ↔
      x s = .error e s' ∨ ∃ a t, x s = .ok a t ∧ f a t = .error e s' := by
  change EStateM.bind x f s = _ ↔ _
  rw [EStateM.bind]
  cases x s with
  | ok a t =>
      constructor
      · exact fun h => .inr ⟨a, t, rfl, h⟩
      · rintro (h | ⟨a', t', h, hf⟩)
        · exact nomatch h
        · cases h
          exact hf
  | error e' t =>
      constructor
      · intro h
        cases h
        exact .inl rfl
      · rintro (h | ⟨a, t', h, -⟩)
        · cases h
          rfl
        · exact nomatch h

theorem run_bind_congr {y : EStateM ε σ α} {t : σ} (h : x s = y t) : (x >>= f) s = (y >>= f) t := by
  change EStateM.bind x f s = EStateM.bind y f t
  rw [EStateM.bind, EStateM.bind, h]

theorem run_bind_of_error {e : ε} {t : σ} (h : x s = .error e t) : (x >>= f) s = .error e t :=
  run_bind_eq_error.mpr (.inl h)

@[simp] theorem run_pure {a : α} : (pure a : EStateM ε σ α) s = .ok a s := rfl

@[simp] theorem run_get : (get : EStateM ε σ σ) s = .ok s s := rfl

@[simp] theorem run_modify {g : σ → σ} : (modify g : EStateM ε σ PUnit) s = .ok ⟨⟩ (g s) := rfl

@[simp] theorem run_throw {e : ε} : (throw e : EStateM ε σ α) s = .error e s := rfl

theorem run_tryCatch_of_ok {handler : ε → EStateM ε σ α} {a : α} {t : σ} (h : x s = .ok a t) :
    tryCatch x handler s = .ok a t := by
  change EStateM.tryCatch x handler s = _
  simp only [EStateM.tryCatch, h]

theorem run_tryCatch_of_error {handler : ε → EStateM ε σ α} {e : ε} {t : σ}
    (h : x s = .error e t) : tryCatch x handler s = handler e t := by
  change EStateM.tryCatch x handler s = _
  simp only [EStateM.tryCatch, h]
  rfl

/-- A computation without state, in one with a state. -/
def fromExcept : Except ε α → EStateM ε σ α
  | .ok a => pure a
  | .error e => throw e

theorem run_fromExcept_of_ok {y : Except ε α} {a : α} (h : y = .ok a) :
    (fromExcept y : EStateM ε σ α) s = .ok a s := by rw [h]; rfl

theorem run_fromExcept_of_error {y : Except ε α} {e : ε} (h : y = .error e) :
    (fromExcept y : EStateM ε σ α) s = .error e s := by rw [h]; rfl

theorem run_fromExcept_eq_ok {y : Except ε α} {a : α} :
    (fromExcept y : EStateM ε σ α) s = .ok a s' ↔ y = .ok a ∧ s' = s := by
  cases y with
  | ok b =>
      simp only [fromExcept, run_pure, EStateM.Result.ok.injEq, Except.ok.injEq]
      exact and_congr_right fun _ => eq_comm
  | error e =>
      simp only [fromExcept, run_throw]
      constructor
      · exact fun h => nomatch h
      · exact fun h => nomatch h.1

theorem run_fromExcept_eq_error {y : Except ε α} {e : ε} :
    (fromExcept y : EStateM ε σ α) s = .error e s' ↔ y = .error e ∧ s' = s := by
  cases y with
  | ok b =>
      simp only [fromExcept, run_pure]
      constructor
      · exact fun h => nomatch h
      · exact fun h => nomatch h.1
  | error e' =>
      simp only [fromExcept, run_throw, EStateM.Result.error.injEq, Except.error.injEq]
      exact and_congr_right fun _ => eq_comm

/-- From the state `s` the computation ends with an answer and a state that have
`post`, or raises in a state that has `inv`. -/
def Leaves (x : EStateM ε σ α) (s : σ) (post : α → σ → Prop) (inv : σ → Prop) : Prop :=
  (∀ a t, x s = .ok a t → post a t) ∧ ∀ e t, x s = .error e t → inv t

variable {post : α → σ → Prop} {inv : σ → Prop}

theorem Leaves.pure {a : α} (h : post a s) :
    Leaves (pure a : EStateM ε σ α) s post inv := by
  constructor
  · intro b t hb
    cases hb
    exact h
  · exact fun e t he => nomatch he

theorem Leaves.throw {e : ε} (h : inv s) :
    Leaves (throw e : EStateM ε σ α) s post inv := by
  constructor
  · exact fun a t ha => nomatch ha
  · intro e' t he
    cases he
    exact h

theorem Leaves.modify {g : σ → σ} {post : PUnit → σ → Prop} (h : post ⟨⟩ (g s)) :
    Leaves (modify g : EStateM ε σ PUnit) s post inv := by
  constructor
  · intro a t ha
    cases ha
    exact h
  · exact fun e t he => nomatch he

theorem Leaves.set {s₁ : σ} {post : PUnit → σ → Prop} (h : post ⟨⟩ s₁) :
    Leaves (set s₁ : EStateM ε σ PUnit) s post inv := by
  constructor
  · intro a t ha
    cases ha
    exact h
  · exact fun e t he => nomatch he

theorem Leaves.fromExcept {y : Except ε α} (h : ∀ a, y = .ok a → post a s) (he : inv s) :
    Leaves (fromExcept y) s post inv := by
  constructor
  · intro a t ha
    obtain ⟨hy, rfl⟩ := run_fromExcept_eq_ok.mp ha
    exact h a hy
  · intro e t ht
    exact (run_fromExcept_eq_error.mp ht).2 ▸ he

/-- The rule of sequence. -/
theorem Leaves.bind (mid : α → σ → Prop) {post : β → σ → Prop} (hx : Leaves x s mid inv)
    (hf : ∀ a t, mid a t → Leaves (f a) t post inv) : Leaves (x >>= f) s post inv := by
  constructor
  · intro b t hb
    obtain ⟨a, u, ha, hb⟩ := run_bind_eq_ok.mp hb
    exact (hf a u (hx.1 a u ha)).1 b t hb
  · intro e t he
    rcases run_bind_eq_error.mp he with he | ⟨a, u, ha, he⟩
    · exact hx.2 e t he
    · exact (hf a u (hx.1 a u ha)).2 e t he

theorem Leaves.get_bind {f : σ → EStateM ε σ β} {post : β → σ → Prop}
    (h : Leaves (f s) s post inv) : Leaves (get >>= f) s post inv := by
  refine .bind (fun a t => a = s ∧ t = s) ⟨fun a t ha => ?_, fun e t he => nomatch he⟩ ?_
  · cases ha
    exact ⟨rfl, rfl⟩
  · rintro a t ⟨rfl, rfl⟩
    exact h

/-- The rule of handlers: where the computation raises, its handler goes on. -/
theorem Leaves.tryCatch {handler : ε → EStateM ε σ α} (mid : σ → Prop)
    (hx : Leaves x s post mid) (hhandler : ∀ e t, mid t → Leaves (handler e) t post inv) :
    Leaves (MonadExcept.tryCatch x handler) s post inv := by
  cases hrun : x s with
  | ok a t =>
      have hcatch := @run_tryCatch_of_ok _ _ _ _ _ handler _ _ hrun
      constructor
      · intro b u hb
        rw [hcatch] at hb
        cases hb
        exact hx.1 a t hrun
      · intro e u he
        rw [hcatch] at he
        exact nomatch he
  | error e t =>
      have hcatch := @run_tryCatch_of_error _ _ _ _ _ handler _ _ hrun
      have hafter := hhandler e t (hx.2 e t hrun)
      constructor
      · intro b u hb
        exact hafter.1 b u (hcatch ▸ hb)
      · intro e' u he
        exact hafter.2 e' u (hcatch ▸ he)

/-- The rule of consequence. -/
theorem Leaves.mono {post' : α → σ → Prop} {inv' : σ → Prop} (h : Leaves x s post inv)
    (hpost : ∀ a t, post a t → post' a t) (hinv : ∀ t, inv t → inv' t) :
    Leaves x s post' inv' :=
  ⟨fun a t ha => hpost a t (h.1 a t ha), fun e t he => hinv t (h.2 e t he)⟩

/-- The computation keeps a property of the state, also when it raises. -/
def Preserves (x : EStateM ε σ α) (inv : σ → Prop) : Prop :=
  ∀ s, inv s → Leaves x s (fun _ => inv) inv

theorem Preserves.pure (a : α) : Preserves (pure a : EStateM ε σ α) inv :=
  fun _ hs => Leaves.pure hs

theorem Preserves.throw (e : ε) : Preserves (throw e : EStateM ε σ α) inv :=
  fun _ hs => Leaves.throw hs

theorem Preserves.modify {g : σ → σ} (h : ∀ s, inv s → inv (g s)) :
    Preserves (modify g : EStateM ε σ PUnit) inv :=
  fun s hs => Leaves.modify (h s hs)

theorem Preserves.set {s₁ : σ} (h : inv s₁) : Preserves (set s₁ : EStateM ε σ PUnit) inv :=
  fun _ _ => Leaves.set h

theorem Preserves.fromExcept (y : Except ε α) : Preserves (fromExcept y) inv :=
  fun _ hs => Leaves.fromExcept (fun _ _ => hs) hs

theorem Preserves.bind (hx : Preserves x inv) (hf : ∀ a, Preserves (f a) inv) :
    Preserves (x >>= f) inv :=
  fun s hs => Leaves.bind (fun _ => inv) (hx s hs) fun a t ht => hf a t ht

theorem Preserves.get_bind {f : σ → EStateM ε σ β} (h : ∀ s, inv s → Preserves (f s) inv) :
    Preserves (get >>= f) inv :=
  fun s hs => Leaves.get_bind (h s hs s hs)

theorem Preserves.tryCatch {handler : ε → EStateM ε σ α} (hx : Preserves x inv)
    (hhandler : ∀ e, Preserves (handler e) inv) :
    Preserves (MonadExcept.tryCatch x handler) inv :=
  fun s hs => Leaves.tryCatch inv (hx s hs) fun e t ht => hhandler e t ht

/-- From the state `s` the two computations are the same, and where they end with an
answer `post` holds. -/
def Agree (x y : EStateM ε σ α) (s : σ) (post : α → σ → Prop) : Prop :=
  x s = y s ∧ ∀ a t, x s = .ok a t → post a t

theorem Agree.of_leaves (h : Leaves x s post fun _ => True) : Agree x x s post := ⟨rfl, h.1⟩

theorem Agree.bind (mid : α → σ → Prop) {y : EStateM ε σ α} {f g : α → EStateM ε σ β}
    {post : β → σ → Prop} (hx : Agree x y s mid)
    (hf : ∀ a t, mid a t → Agree (f a) (g a) t post) : Agree (x >>= f) (y >>= g) s post := by
  obtain ⟨hxy, hmid⟩ := hx
  constructor
  · change EStateM.bind x f s = EStateM.bind y g s
    rw [EStateM.bind, EStateM.bind, ← hxy]
    cases hrun : x s with
    | ok a t => exact (hf a t (hmid a t hrun)).1
    | error e t => rfl
  · intro b t hb
    obtain ⟨a, u, ha, hb⟩ := run_bind_eq_ok.mp hb
    exact (hf a u (hmid a u ha)).2 b t hb

theorem Agree.get_bind {f g : σ → EStateM ε σ β} {post : β → σ → Prop}
    (h : Agree (f s) (g s) s post) : Agree (get >>= f) (get >>= g) s post := by
  refine .bind (fun a t => a = s ∧ t = s) ⟨rfl, fun a t ha => ?_⟩ ?_
  · cases ha
    exact ⟨rfl, rfl⟩
  · rintro a t ⟨rfl, rfl⟩
    exact h

end State

end Fallible
