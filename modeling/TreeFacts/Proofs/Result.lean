import Mathlib.Data.List.Forall2

namespace TreeFacts

variable {ε α β : Type}

@[simp] theorem ok_bind (a : α) (f : α → Except ε β) : (Except.ok a >>= f) = f a := rfl

@[simp] theorem error_bind (e : ε) (f : α → Except ε β) : (Except.error e >>= f) = .error e := rfl

@[simp] theorem pure_eq_ok (a : α) : (pure a : Except ε α) = .ok a := rfl

@[simp] theorem map_ok (f : α → β) (a : α) : (Except.ok a : Except ε α).map f = .ok (f a) := rfl

theorem bind_eq_ok {x : Except ε α} {f : α → Except ε β} {b : β} :
    (x >>= f) = .ok b ↔ ∃ a, x = .ok a ∧ f a = .ok b := by
  cases x with
  | error e => simp
  | ok a => simp

theorem bind_eq_error {x : Except ε α} {f : α → Except ε β} {e : ε} :
    (x >>= f) = .error e ↔ x = .error e ∨ ∃ a, x = .ok a ∧ f a = .error e := by
  cases x with
  | error e => simp
  | ok a => simp

theorem map_eq_ok {x : Except ε α} {f : α → β} {b : β} :
    x.map f = .ok b ↔ ∃ a, x = .ok a ∧ f a = b := by
  cases x with
  | error e => simp [Except.map]
  | ok a => simp

theorem map_eq_map {γ : Type} {x : Except ε α} {y : Except ε β} {f : α → γ} {g : β → γ}
    (h : x.map f = y.map g) : (∃ e, x = .error e ∧ y = .error e) ∨
      ∃ a b, x = .ok a ∧ y = .ok b ∧ f a = g b := by
  cases x with
  | error e =>
    cases y with
    | error e' =>
      cases h
      exact Or.inl ⟨e, rfl, rfl⟩
    | ok b => cases h
  | ok a =>
    cases y with
    | error e => cases h
    | ok b => exact Or.inr ⟨a, b, rfl, rfl, Except.ok.inj h⟩

theorem mapM_eq_ok {f : α → Except ε β} {xs : List α} {ys : List β} :
    xs.mapM f = .ok ys ↔ List.Forall₂ (fun x y => f x = .ok y) xs ys := by
  induction xs generalizing ys with
  | nil => simp [eq_comm]
  | cons x xs ih =>
    rw [List.mapM_cons, List.forall₂_cons_left_iff, bind_eq_ok]
    constructor
    · rintro ⟨y, hy, h⟩
      obtain ⟨rest, hrest, heq⟩ := bind_eq_ok.mp h
      cases heq
      exact ⟨y, rest, hy, ih.mp hrest, rfl⟩
    · rintro ⟨y, rest, hy, hrest, rfl⟩
      exact ⟨y, hy, bind_eq_ok.mpr ⟨rest, ih.mpr hrest, rfl⟩⟩

theorem mapM_filterMap {γ : Type} {f : α → Except ε β} {g : γ → Option α} {g' : γ → Option β}
    {xs : List γ} (h : ∀ x ∈ xs, (g x).map f = (g' x).map .ok) :
    (xs.filterMap g).mapM f = .ok (xs.filterMap g') := by
  induction xs with
  | nil => rfl
  | cons x xs ih =>
    have hx := h x List.mem_cons_self
    have hxs := ih fun y hy => h y (List.mem_cons_of_mem x hy)
    cases hg : g x with
    | none =>
      cases hg' : g' x with
      | none => rwa [List.filterMap_cons_none hg, List.filterMap_cons_none hg']
      | some b => simp [hg, hg'] at hx
    | some a =>
      cases hg' : g' x with
      | none => simp [hg, hg'] at hx
      | some b =>
        have hb : f a = .ok b := by simpa [hg, hg'] using hx
        rw [List.filterMap_cons_some hg, List.filterMap_cons_some hg', List.mapM_cons, hb, ok_bind,
          hxs, ok_bind]
        rfl

theorem mapM_congr {f g : α → Except ε β} {xs : List α} (h : ∀ x ∈ xs, f x = g x) :
    xs.mapM f = xs.mapM g := by
  induction xs with
  | nil => rfl
  | cons x xs ih =>
    rw [List.mapM_cons, List.mapM_cons, h x List.mem_cons_self,
      ih fun y hy => h y (List.mem_cons_of_mem x hy)]

theorem mapM_eq_map {γ : Type} {f : α → Except ε β} {g : α → Except ε γ} {r : β → γ} {xs : List α}
    (h : ∀ x ∈ xs, g x = (f x).map r) : xs.mapM g = (xs.mapM f).map (List.map r) := by
  induction xs with
  | nil => rfl
  | cons x xs ih =>
    have hrest := ih fun y hy => h y (List.mem_cons_of_mem x hy)
    rw [List.mapM_cons, List.mapM_cons, h x List.mem_cons_self, hrest]
    cases f x with
    | error e => rfl
    | ok y =>
      cases xs.mapM f with
      | error e => rfl
      | ok ys => rfl

theorem mapM_error_of_mem {f : α → Except ε β} {xs : List α} {x : α} {e : ε} (hx : x ∈ xs)
    (h : f x = .error e) : ∃ e', xs.mapM f = .error e' := by
  induction xs with
  | nil => cases hx
  | cons first xs ih =>
    rw [List.mapM_cons]
    cases hfirst : f first with
    | error e' => exact ⟨e', rfl⟩
    | ok y =>
      rcases List.mem_cons.mp hx with rfl | hx
      · rw [h] at hfirst
        cases hfirst
      · obtain ⟨e', he'⟩ := ih hx
        exact ⟨e', by rw [ok_bind, he', error_bind]⟩

/-- The first element that fails settles the failure. -/
theorem mapM_eq_error_iff {f : α → Except ε β} {xs : List α} {e : ε} : xs.mapM f = .error e ↔
    ∃ front x back, xs = front ++ x :: back ∧ (∀ y ∈ front, ∃ z, f y = .ok z) ∧ f x = .error e := by
  constructor
  · intro h
    induction xs with
    | nil => cases h
    | cons x xs ih =>
      rw [List.mapM_cons] at h
      rcases bind_eq_error.mp h with hx | ⟨z, hz, hrest⟩
      · exact ⟨[], x, xs, rfl, fun y hy => absurd hy List.not_mem_nil, hx⟩
      · rcases bind_eq_error.mp hrest with hrest | ⟨_, -, hrest⟩
        · obtain ⟨front, x', back, rfl, hfront, hx'⟩ := ih hrest
          exact ⟨x :: front, x', back, rfl, List.forall_mem_cons.mpr ⟨⟨z, hz⟩, hfront⟩, hx'⟩
        · cases hrest
  · rintro ⟨front, x, back, rfl, hfront, hx⟩
    induction front with
    | nil => rw [List.nil_append, List.mapM_cons, hx, error_bind]
    | cons y front ih =>
      obtain ⟨⟨z, hz⟩, hfront⟩ := List.forall_mem_cons.mp hfront
      rw [List.cons_append, List.mapM_cons, hz, ok_bind, ih hfront, error_bind]

theorem mapM_eq_error {f : α → Except ε β} {xs : List α} {e : ε} (h : xs.mapM f = .error e) :
    ∃ x ∈ xs, f x = .error e := by
  obtain ⟨front, x, back, rfl, -, hx⟩ := mapM_eq_error_iff.mp h
  exact ⟨x, by simp, hx⟩

theorem forM_eq_ok {f : α → Except ε PUnit.{1}} {xs : List α} :
    xs.forM f = .ok ⟨⟩ ↔ ∀ x ∈ xs, f x = .ok ⟨⟩ := by
  induction xs with
  | nil => exact iff_of_true rfl (fun _ hx => absurd hx List.not_mem_nil)
  | cons x xs ih =>
    have hstep : (x :: xs).forM f = f x >>= fun _ => xs.forM f := rfl
    rw [hstep, bind_eq_ok, List.forall_mem_cons, ← ih]
    constructor
    · rintro ⟨⟨⟩, hx, hxs⟩
      exact ⟨hx, hxs⟩
    · rintro ⟨hx, hxs⟩
      exact ⟨⟨⟩, hx, hxs⟩

theorem exists_of_forall₂ {R : α → β → Prop} {xs : List α} {ys : List β} (h : List.Forall₂ R xs ys)
    {y : β} (hy : y ∈ ys) : ∃ x ∈ xs, R x y := by
  induction h with
  | nil => simp at hy
  | cons hxy _ ih =>
    rcases List.mem_cons.mp hy with rfl | hy
    · exact ⟨_, List.mem_cons_self, hxy⟩
    · obtain ⟨x, hx, hr⟩ := ih hy
      exact ⟨x, List.mem_cons_of_mem _ hx, hr⟩

end TreeFacts
