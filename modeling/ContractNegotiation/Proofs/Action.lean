import ContractNegotiation.Action

/-! Where actions lead. `Ends x s Q` says that `x`, begun in `s`, ends with an answer or a fault,
and in a state, that satisfy `Q`. What was done before a fault counts like everything else. -/

namespace ContractNegotiation.Action

variable {σ τ α β : Type}

def Ends (x : Action σ α) (s : σ) (Q : Except Fault α → σ → Prop) : Prop :=
  match x s with
  | .ok a t => Q (.ok a) t
  | .error fault t => Q (.error fault) t

def after (x : Action σ α) (s : σ) : σ :=
  match x s with
  | .ok _ t => t
  | .error _ t => t

def answer [Inhabited α] (x : Action σ α) (s : σ) : α :=
  match x s with
  | .ok a _ => a
  | .error .. => default

def outcome (x : Action σ α) (s : σ) : Except Fault α :=
  match x s with
  | .ok a _ => .ok a
  | .error fault _ => .error fault

variable {x : Action σ α} {g : α → Action σ β} {s : σ} {P Q : Except Fault α → σ → Prop}

theorem Ends.mono (h : Ends x s P) (hpq : ∀ r t, P r t → Q r t) : Ends x s Q := by
  unfold Ends at *
  split at h <;> exact hpq _ _ h

theorem Ends.and (h : Ends x s P) (h' : Ends x s Q) : Ends x s fun r t => P r t ∧ Q r t := by
  unfold Ends at *
  split at h <;> simp_all

theorem Ends.after {R : σ → Prop} (h : Ends x s fun _ t => R t) : R (x.after s) := by
  unfold Ends at h
  unfold Action.after
  split at h <;> simp_all

theorem ends_after : Ends x s fun _ t => t = x.after s := by
  unfold Ends Action.after
  split <;> simp_all

theorem ends_outcome : Ends x s fun r _ => r = x.outcome s := by
  unfold Ends outcome
  split <;> rfl

theorem ends_pure {a : α} : Ends (pure a) s Q ↔ Q (.ok a) s := Iff.rfl

theorem ends_get {Q : Except Fault σ → σ → Prop} : Ends get s Q ↔ Q (.ok s) s := Iff.rfl

theorem ends_bind {Q : Except Fault β → σ → Prop} :
    Ends (x >>= g) s Q ↔ Ends x s fun r t =>
      match r with
      | .ok a => Ends (g a) t Q
      | .error fault => Q (.error fault) t := by
  simp only [Ends, bind, EStateM.bind]
  cases x s <;> rfl

theorem Ends.bind {Q : Except Fault β → σ → Prop} (h : Ends x s P)
    (hok : ∀ a t, P (.ok a) t → Ends (g a) t Q)
    (herror : ∀ fault t, P (.error fault) t → Q (.error fault) t) : Ends (x >>= g) s Q := by
  refine ends_bind.mpr (h.mono fun r t hr => ?_)
  cases r with
  | ok a => exact hok a t hr
  | error fault => exact herror fault t hr

theorem Ends.andPure {R : σ → Prop} {b : α → β} (h : Ends x s fun _ t => R t) :
    Ends (x >>= fun a => pure (b a)) s fun _ t => R t :=
  h.bind (fun _ _ ht => ht) fun _ _ ht => ht

theorem ends_map {f : α → β} {Q : Except Fault β → σ → Prop} :
    Ends (f <$> x) s Q ↔ Ends x s fun r t => Q (r.map f) t := by
  simp only [Ends, Functor.map, EStateM.map]
  cases x s <;> rfl

theorem ends_within {x : Action τ α} {part : σ → τ} {update : σ → τ → σ} :
    Ends (within part update x) s Q ↔ Ends x (part s) fun r t => Q r (update s t) := by
  simp only [Ends, within]
  cases x (part s) <;> rfl

theorem Ends.attempt {k : Except Fault α → Action σ β} {Q : Except Fault β → σ → Prop}
    (h : Ends x s P) (hk : ∀ r t, P r t → Ends (k r) t Q) : Ends (attempt x >>= k) s Q := by
  refine ends_bind.mpr ?_
  unfold Ends at h ⊢
  unfold Action.attempt
  cases hx : x s with
  | ok a t =>
    simp only [hx] at h
    exact hk (.ok a) t h
  | error fault t =>
    simp only [hx] at h
    exact hk (.error fault) t h

theorem each_ends {f : α → Action σ Unit} (I : List α → σ → Prop)
    (drop : ∀ x xs t, I (x :: xs) t → I xs t)
    (step : ∀ x xs t, I (x :: xs) t → Ends (f x) t fun _ t' => I xs t') {xs : List α}
    (h : I xs s) : Ends (each f xs) s fun _ t => I [] t := by
  have drop_all (xs : List α) (t : σ) (ht : I xs t) : I [] t := by
    induction xs with
    | nil => exact ht
    | cons x xs ih => exact ih (drop x xs t ht)
  induction xs generalizing s with
  | nil => exact h
  | cons x xs ih =>
    refine (step x xs s h).bind ?_ ?_
    · intro a t ht
      exact ih ht
    · intro fault t ht
      exact drop_all xs t ht

theorem eachThenRaise_ends {f : α → Action σ Unit} (I : List α → σ → Prop)
    (step : ∀ x xs t, I (x :: xs) t → Ends (f x) t fun _ t' => I xs t') {xs : List α}
    (h : I xs s) : Ends (eachThenRaise f xs) s fun _ t => I [] t := by
  induction xs generalizing s with
  | nil => exact h
  | cons x xs ih =>
    refine (step x xs s h).attempt ?_
    intro outcome t ht
    cases outcome with
    | ok _ => exact ih ht
    | error fault => exact (ih ht).attempt fun _ _ h => h

theorem select_ends {keep : α → Action σ Bool} (I : List α → List α → σ → Prop)
    (step : ∀ kept x xs t, I kept (x :: xs) t → Ends (keep x) t fun r t' =>
      match r with
      | .ok true => I (kept ++ [x]) xs t'
      | .ok false => I kept xs t'
      | .error _ => I [] [] t') {kept xs : List α} (h : I kept xs s) :
    Ends (select keep xs) s fun r t =>
      match r with
      | .ok others => I (kept ++ others) [] t
      | .error _ => I [] [] t := by
  induction xs generalizing s kept with
  | nil => simpa [select, ends_pure] using h
  | cons x xs ih =>
    refine (step kept x xs s h).bind ?_ ?_
    · intro b t ht
      cases b with
      | true =>
        refine (ih ht).bind ?_ fun _ _ h => h
        intro others t' ht'
        simpa [ends_pure] using ht'
      | false => exact (ih ht).bind (fun _ _ h => by simpa [ends_pure] using h) fun _ _ h => h
    · exact fun _ _ h => h

theorem total_ends {f : α → Action σ Nat} (I : σ → Prop) {xs : List α}
    (step : ∀ x ∈ xs, ∀ t, I t → Ends (f x) t fun _ t' => I t') (h : I s) :
    Ends (total f xs) s fun _ t => I t := by
  induction xs generalizing s with
  | nil => exact h
  | cons x xs ih =>
    refine (step x (by simp) s h).bind ?_ fun _ _ h => h
    intro k t ht
    refine (ih (fun y hy => step y (by simp [hy])) ht).bind ?_ fun _ _ h => h
    exact fun _ _ h => h

def Yields (x : Action σ α) (s : σ) (R : α → σ → Prop) : Prop := ∃ a t, x s = .ok a t ∧ R a t

section Yields

variable {R R' : α → σ → Prop} {f : α → Action σ Unit} {xs : List α}

theorem Yields.mono (h : Yields x s R) (hr : ∀ a t, R a t → R' a t) : Yields x s R' := by
  obtain ⟨a, t, hx, ht⟩ := h
  exact ⟨a, t, hx, hr a t ht⟩

theorem Yields.ends (h : Yields x s R) (hq : ∀ a t, R a t → Q (.ok a) t) : Ends x s Q := by
  obtain ⟨a, t, hx, ht⟩ := h
  unfold Ends
  rw [hx]
  exact hq a t ht

theorem Yields.andEnds (h : Yields x s R) (hq : Ends x s Q) :
    Yields x s fun a t => R a t ∧ Q (.ok a) t := by
  obtain ⟨a, t, hx, ht⟩ := h
  unfold Ends at hq
  rw [hx] at hq
  exact ⟨a, t, hx, ht, hq⟩

theorem Yields.and (h : Yields x s R) (h' : Yields x s R') :
    Yields x s fun a t => R a t ∧ R' a t := by
  obtain ⟨a, t, hx, ht⟩ := h
  obtain ⟨b, u, hx', hu⟩ := h'
  rw [hx] at hx'
  cases hx'
  exact ⟨a, t, hx, ht, hu⟩

theorem Yields.noted (h : Yields x s R) : Yields x s fun a t => R a t ∧ x s = .ok a t := by
  obtain ⟨a, t, hx, ht⟩ := h
  exact ⟨a, t, hx, ht, hx⟩

theorem Yields.eq_ok [Inhabited α] (h : Yields x s R) :
    x s = .ok (x.answer s) (x.after s) ∧ R (x.answer s) (x.after s) := by
  obtain ⟨a, t, hx, ht⟩ := h
  simpa only [answer, Action.after, hx, true_and] using ht

theorem Yields.after {S : σ → Prop} (h : Yields x s fun _ t => S t) : S (x.after s) :=
  (h.ends fun _ _ ht => ht : Ends x s fun _ t => S t).after

theorem yields_pure {a : α} : Yields (pure a) s R ↔ R a s := by
  constructor
  · rintro ⟨b, t, hx, ht⟩
    cases hx
    exact ht
  · intro h
    exact ⟨a, s, rfl, h⟩

theorem Yields.bind {S : β → σ → Prop} (h : Yields x s R)
    (hg : ∀ a t, R a t → Yields (g a) t S) : Yields (x >>= g) s S := by
  obtain ⟨a, t, hx, ht⟩ := h
  obtain ⟨b, u, hy, hu⟩ := hg a t ht
  refine ⟨b, u, ?_, hu⟩
  simp only [Bind.bind, EStateM.bind, hx, hy]

theorem Yields.bind_ends {Q : Except Fault β → σ → Prop} (h : Yields x s R)
    (hg : ∀ a t, R a t → Ends (g a) t Q) : Ends (x >>= g) s Q := by
  obtain ⟨a, t, hx, ht⟩ := h
  have hnext := hg a t ht
  unfold Ends at hnext ⊢
  simpa only [Bind.bind, EStateM.bind, hx] using hnext

theorem yields_within {y : Action τ α} {part : σ → τ} {update : σ → τ → σ}
    (h : Yields y (part s) fun a t => R a (update s t)) : Yields (within part update y) s R := by
  obtain ⟨a, t, hy, ht⟩ := h
  exact ⟨a, update s t, by simp only [within, hy], ht⟩

theorem Yields.map (h : Yields x s R) (φ : α → β) :
    Yields (φ <$> x) s fun b t => ∃ a, b = φ a ∧ R a t := by
  obtain ⟨a, t, hx, ht⟩ := h
  refine ⟨φ a, t, ?_, a, rfl, ht⟩
  simp only [Functor.map, EStateM.map, hx]

theorem get_apply (s : σ) : (get : Action σ σ) s = .ok s s := rfl

theorem yields_get {S : σ → σ → Prop} : Yields get s S ↔ S s s := by
  constructor
  · rintro ⟨_, _, hx, h⟩
    cases hx
    exact h
  · intro h
    exact ⟨s, s, rfl, h⟩

theorem Yields.attempt (h : Yields x s R) :
    Yields (attempt x) s fun r t => ∃ a, r = .ok a ∧ R a t := by
  obtain ⟨a, t, hx, ht⟩ := h
  refine ⟨.ok a, t, ?_, a, rfl, ht⟩
  simp only [Action.attempt, hx]

theorem Ends.attempted (h : Ends x s P) : Yields (Action.attempt x) s P := by
  unfold Ends at h
  unfold Yields Action.attempt
  cases hx : x s with
  | ok a t =>
    rw [hx] at h
    exact ⟨.ok a, t, rfl, h⟩
  | error fault t =>
    rw [hx] at h
    exact ⟨.error fault, t, rfl, h⟩

theorem each_yields (I : List α → σ → Prop)
    (step : ∀ x xs t, I (x :: xs) t → Yields (f x) t fun _ t' => I xs t') (h : I xs s) :
    Yields (each f xs) s fun _ t => I [] t := by
  induction xs generalizing s with
  | nil => exact yields_pure.mpr h
  | cons x xs ih =>
    apply (step x xs s h).bind
    intro _ t ht
    exact ih ht

theorem select_yields {keep : α → Action σ Bool} {kept : List α} (I : List α → List α → σ → Prop)
    (step : ∀ kept x xs t, I kept (x :: xs) t → Yields (keep x) t fun b t' =>
      I (if b then kept ++ [x] else kept) xs t') (h : I kept xs s) :
    Yields (select keep xs) s fun others t => I (kept ++ others) [] t := by
  induction xs generalizing s kept with
  | nil =>
    apply yields_pure.mpr
    rwa [List.append_nil]
  | cons x xs ih =>
    apply (step kept x xs s h).bind
    intro b t ht
    apply (ih ht).bind
    intro others u hu
    apply yields_pure.mpr
    cases b with
    | true => simpa using hu
    | false => exact hu

theorem total_yields {count : α → Action σ Nat} (I : List α → σ → Prop)
    (step : ∀ x xs t, I (x :: xs) t → Yields (count x) t fun _ t' => I xs t') (h : I xs s) :
    Yields (total count xs) s fun _ t => I [] t := by
  induction xs generalizing s with
  | nil => exact yields_pure.mpr h
  | cons x xs ih =>
    apply (step x xs s h).bind
    intro k t ht
    apply (ih ht).bind
    intro others u hu
    exact yields_pure.mpr hu

theorem each_append (f : α → Action σ Unit) (xs ys : List α) :
    each f (xs ++ ys) = (do
      each f xs
      each f ys) := by
  induction xs with
  | nil => rfl
  | cons x xs ih => simp only [List.cons_append, each, ih, bind_assoc]

theorem eachThenRaise_eq_each {f : α → Action σ Unit} (hf : ∀ x s, Yields (f x) s fun _ _ => True)
    (hands : List (List α)) : eachThenRaise (each f) hands = each f hands.flatten := by
  induction hands with
  | nil => rfl
  | cons hand hands ih =>
    have hhand (s : σ) : Yields (each f hand) s fun _ _ => True :=
      each_yields (fun _ _ => True) (fun x _ t _ => hf x t) trivial
    rw [List.flatten_cons, each_append]
    funext s
    obtain ⟨_, t, hx, -⟩ := hhand s
    simp only [eachThenRaise, Bind.bind, EStateM.bind, attempt, hx, ih]

section Total

variable {count : α → Action σ Nat} {x : α} {ys : List α} {S T : σ → Prop}

theorem total_append (count : α → Action σ Nat) (xs ys : List α) :
    total count (xs ++ ys) = (do
      let k ← total count xs
      let l ← total count ys
      pure (k + l)) := by
  induction xs with
  | nil => simp only [List.nil_append, total, pure_bind, Nat.zero_add, bind_pure]
  | cons x xs ih => simp only [List.cons_append, total, ih, bind_assoc, pure_bind, Nat.add_assoc]

variable (hys : ∀ t, S t → Yields (total count ys) t fun _ u => T u)
include hys

theorem total_cons_yields (hx : Yields (count x) s fun _ t => S t) :
    Yields (total count (x :: ys)) s fun _ t => T t := by
  apply hx.bind
  intro k t ht
  apply (hys t ht).bind
  intro others u hu
  exact yields_pure.mpr hu

theorem total_append_yields {xs : List α} (hxs : Yields (total count xs) s fun _ t => S t) :
    Yields (total count (xs ++ ys)) s fun _ t => T t := by
  rw [total_append]
  apply hxs.bind
  intro k t ht
  apply (hys t ht).bind
  intro others u hu
  exact yields_pure.mpr hu

end Total

end Yields

end ContractNegotiation.Action
