import TreeFacts.Proofs.Result
import TreeFacts.Proofs.Template.Pieces
import TreeFacts.Template.Format

namespace TreeFacts.Template

/-- Where a path leads from a value. -/
inductive Context.Leads (c : Context) : Lifted → List (List Char) → Lifted → Prop
  | here {v} : c.Leads v [] v
  | step {v w u segment path} : c.step? v (String.ofList segment) = some w → c.Leads w path u →
      c.Leads v (segment :: path) u

theorem Context.follow?_eq_some {c : Context} {v w : Lifted} {path : List (List Char)} :
    c.follow? v path = some w ↔ c.Leads v path w := by
  induction path generalizing v with
  | nil =>
    rw [follow?]
    constructor
    · rintro ⟨⟩
      exact .here
    · rintro ⟨⟩
      rfl
  | cons segment path ih =>
    rw [follow?, Option.bind_eq_some_iff]
    constructor
    · rintro ⟨u, hstep, hrest⟩
      exact .step hstep (ih.mp hrest)
    · rintro (_ | ⟨hstep, hrest⟩)
      exact ⟨_, hstep, ih.mpr hrest⟩

namespace Placeholder

variable {c : Context} {f : LiftedFact} {p : Placeholder}

/-- ASCII digits are the index with their value, unless it takes more than 64 bits. -/
def Denotes (p : Placeholder) (index : Nat) : Prop :=
  (∀ d ∈ p.digits, d.isDigit = true) ∧ Nat.ofDigitChars 10 p.digits 0 = index ∧
    index < UInt64.size

/-- The index that a placeholder which fails is reported with. -/
inductive Reports (p : Placeholder) : Nat → Prop
  | denoted {index} : p.Denotes index → p.Reports index
  | greatest : (∀ index, ¬p.Denotes index) → p.Reports maxIndex

/-- A placeholder stands for the value at the end of its path from the value at its index. -/
def Resolves (c : Context) (f : LiftedFact) (p : Placeholder) (v : Lifted) : Prop :=
  ∃ index first, p.Denotes index ∧ f.values[index]? = some first ∧ c.Leads first p.path v

theorem WellFormed.readNat?_eq_some (h : p.WellFormed) {index : Nat} :
    Text.readNat? UInt64.size p.digits = some index ↔ p.Denotes index := by
  have hplus : ∀ rest, p.digits ≠ '+' :: rest := by
    intro rest heq
    have hdigit := h.isDecimalDigit '+' (heq ▸ List.mem_cons_self)
    exact absurd hdigit (by decide)
  have hread : Text.readNat? UInt64.size p.digits = (Text.digitsValue? p.digits).bind fun n =>
      if n < UInt64.size then some n else none := by
    unfold Text.readNat?
    split
    next rest heq => exact absurd heq (hplus rest)
    next => rfl
  rw [hread, Text.digitsValue?, ← Nat.ofDigitChars_eq_foldl, Denotes, ← List.all_eq_true]
  cases hall : p.digits.all Char.isDigit with
  | true =>
    simp only [List.isEmpty_eq_false_iff.mpr h.digits_ne_nil, Bool.not_false, Bool.and_true,
      ↓reduceIte, Option.bind_some, Option.ite_none_right_eq_some, Option.some.injEq, true_and]
    constructor
    · rintro ⟨hlt, rfl⟩
      exact ⟨rfl, hlt⟩
    · rintro ⟨rfl, hlt⟩
      exact ⟨hlt, rfl⟩
  | false => simp

theorem WellFormed.resolve_eq_ok (h : p.WellFormed) {v : Lifted} :
    p.resolve c f = .ok v ↔ p.Resolves c f v := by
  unfold resolve Resolves
  simp only [← h.readNat?_eq_some, ← Context.follow?_eq_some]
  cases Text.readNat? UInt64.size p.digits with
  | none => simp
  | some index =>
    cases hvalue : f.values[index]? with
    | none => simp [hvalue]
    | some first => cases hpath : c.follow? first p.path <;> simp [hvalue, hpath]

theorem WellFormed.resolve_eq_error (h : p.WellFormed) (hv : ¬∃ v, p.Resolves c f v) :
    ∃ index, p.Reports index ∧ p.resolve c f = .error (.placeholder index p.pathText) := by
  have hnone : ∀ v, p.resolve c f ≠ .ok v := fun v hok => hv ⟨v, h.resolve_eq_ok.mp hok⟩
  unfold resolve at hnone ⊢
  cases hread : Text.readNat? UInt64.size p.digits with
  | none =>
    refine ⟨maxIndex, .greatest fun index hindex => ?_, rfl⟩
    rw [← h.readNat?_eq_some, hread] at hindex
    cases hindex
  | some index =>
    refine ⟨index, .denoted (h.readNat?_eq_some.mp hread), ?_⟩
    simp only [hread] at hnone
    dsimp only
    split
    next v hfollow => exact absurd (by rw [hfollow]) (hnone v)
    next => rfl

end Placeholder

open Placeholder

/-- What a piece of a template shows: a character itself, a placeholder the text of its value. -/
inductive Piece.Shows (c : Context) (f : LiftedFact) : Piece → String → Prop
  | char (ch) : Shows c f (.char ch) (String.singleton ch)
  | placeholder {p v} : p.Resolves c f v → Shows c f (.placeholder p) v.render

namespace Piece

variable {c : Context} {f : LiftedFact} {piece : Piece}

theorem format_eq_ok (h : ∀ p, piece = .placeholder p → p.WellFormed) {text : String} :
    piece.format c f = .ok text ↔ piece.Shows c f text := by
  cases piece with
  | char ch =>
    constructor
    · rintro ⟨⟩
      exact .char ch
    · rintro ⟨⟩
      rfl
  | placeholder p =>
    rw [Piece.format, map_eq_ok]
    constructor
    · rintro ⟨v, hv, rfl⟩
      exact .placeholder ((h p rfl).resolve_eq_ok.mp hv)
    · rintro (_ | hv)
      exact ⟨_, (h p rfl).resolve_eq_ok.mpr hv, rfl⟩

theorem format_eq_error (h : ∀ p, piece = .placeholder p → p.WellFormed) {e : Error}
    (he : piece.format c f = .error e) : ∃ p index, piece = .placeholder p ∧
      (¬∃ v, p.Resolves c f v) ∧ p.Reports index ∧ e = .placeholder index p.pathText := by
  cases piece with
  | char ch => cases he
  | placeholder p =>
    rw [Piece.format] at he
    by_cases hv : ∃ v, p.Resolves c f v
    · obtain ⟨v, hv⟩ := hv
      rw [(h p rfl).resolve_eq_ok.mpr hv] at he
      cases he
    · obtain ⟨index, hindex, herror⟩ := (h p rfl).resolve_eq_error hv
      rw [herror] at he
      cases he
      exact ⟨p, index, rfl, hv, hindex, rfl⟩

end Piece

/-- A template is cut in one way only, and formatted from the left: every character stands as it
is and every placeholder as the text of its value, or else the first placeholder without a value
is reported. -/
theorem format_cuts (c : Context) (f : LiftedFact) (template : String) :
    ∃ ps, (∀ qs, Cuts template.toList qs ↔ qs = ps) ∧
      ((∀ p, .placeholder p ∈ ps → ∃ v, p.Resolves c f v) →
        ∃ texts, List.Forall₂ (Piece.Shows c f) ps texts ∧
          format c f template = .ok (String.join texts)) ∧
      ∀ q, .placeholder q ∈ ps → (¬∃ v, q.Resolves c f v) →
        ∃ front p back index, ps = front ++ .placeholder p :: back ∧
          (∀ r, .placeholder r ∈ front → ∃ v, r.Resolves c f v) ∧ (¬∃ v, p.Resolves c f v) ∧
          p.Reports index ∧ format c f template = .error (.placeholder index p.pathText) := by
  have hcuts : Cuts template.toList (pieces template) := piecesIn_cuts (Nat.le_refl _)
  have hformed : ∀ piece ∈ pieces template, ∀ p, piece = .placeholder p → p.WellFormed :=
    fun piece hpiece p hp => hcuts.wellFormed (hp ▸ hpiece)
  refine ⟨pieces template, fun qs => ⟨fun h => h.eq hcuts, fun h => h ▸ hcuts⟩, ?_⟩
  unfold format
  cases hrun : (pieces template).mapM (Piece.format c f) with
  | ok texts =>
    have hshown : List.Forall₂ (Piece.Shows c f) (pieces template) texts :=
      ((List.forall₂_and_left _ _).mpr ⟨hformed, mapM_eq_ok.mp hrun⟩).imp
        fun piece text h => (Piece.format_eq_ok h.1).mp h.2
    refine ⟨fun _ => ⟨texts, hshown, rfl⟩, fun q hq hnone => ?_⟩
    obtain ⟨text, -, htext⟩ := exists_of_forall₂ hshown.flip hq
    cases htext with
    | placeholder hv => exact absurd ⟨_, hv⟩ hnone
  | error e =>
    obtain ⟨front, piece, back, hps, hfront, hpiece⟩ := mapM_eq_error_iff.mp hrun
    have hfits : ∀ piece ∈ front, ∀ p, piece = .placeholder p → p.WellFormed :=
      fun piece hpiece => hformed piece (hps ▸ List.mem_append_left _ hpiece)
    have hmem : piece ∈ pieces template := hps ▸ List.mem_append_right front List.mem_cons_self
    obtain ⟨p, index, rfl, hnone, hindex, rfl⟩ := Piece.format_eq_error (hformed piece hmem) hpiece
    refine ⟨fun hall => absurd (hall p hmem) hnone, fun q _ _ => ?_⟩
    refine ⟨front, p, back, index, hps, fun r hr => ?_, hnone, hindex, rfl⟩
    obtain ⟨text, htext⟩ := hfront (.placeholder r) hr
    cases (Piece.format_eq_ok (hfits _ hr)).mp htext with
    | placeholder hv => exact ⟨_, hv⟩

/-- What a value shows is not read again. -/
example : format ⟨[], none⟩ ⟨"report", ["name", "count"], [.text "\x7b1\x7d", .number 7]⟩
    "\x7b0\x7d has \x7b1\x7d of \x7bx\x7d" = .ok "\x7b1\x7d has 7 of \x7bx\x7d" := by
  decide +kernel

end TreeFacts.Template
