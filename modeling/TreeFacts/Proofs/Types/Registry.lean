import TreeFacts.Proofs.Result
import TreeFacts.Types.Registry

namespace TreeFacts

theorem ne_of_ending_ne {a b : String} (n : Nat)
    (h : a.toList.reverse.take n ≠ b.toList.reverse.take n) : a ≠ b := by
  rintro rfl
  exact h rfl

/-- No list type has the name of an identifier type. -/
theorem listName_ne_idName (name kind : String) : name ++ "List" ≠ kind ++ "Id" :=
  ne_of_ending_ne 1 (by simp)

theorem listName_ne_builtin (name : String) : name ++ "List" ≠ "bool" ∧ name ++ "List" ≠ "id" :=
  ⟨ne_of_ending_ne 1 (by simp), ne_of_ending_ne 1 (by simp)⟩

theorem idName_ne_builtin (kind : String) : kind ++ "Id" ≠ "bool" ∧ kind ++ "Id" ≠ "id" :=
  ⟨ne_of_ending_ne 1 (by simp), ne_of_ending_ne 2 (by simp)⟩

namespace Registry

variable {r r' : Registry}

/-- Definitions were only added, and the kinds are the same. -/
structure Extends (r r' : Registry) : Prop where
  defs : r.defs <+: r'.defs
  hierarchy : r'.hierarchy = r.hierarchy

theorem Extends.refl (r : Registry) : r.Extends r := ⟨List.prefix_rfl, rfl⟩

theorem Extends.trans {r'' : Registry} (h : r.Extends r') (h' : r'.Extends r'') :
    r.Extends r'' :=
  ⟨h.defs.trans h'.defs, h'.hierarchy.trans h.hierarchy⟩

theorem extends_push (r : Registry) (d : TypeDef) : r.Extends (r.push d) :=
  ⟨List.prefix_append r.defs [d], rfl⟩

theorem get?_mono (h : r.defs <+: r'.defs) {name : String} {d : TypeDef}
    (hd : r.get? name = some d) : r'.get? name = some d :=
  h.find?_eq_some hd

theorem get?_push (r : Registry) (d : TypeDef) (name : String) :
    (r.push d).get? name = (r.get? name).or (if d.name = name then some d else none) := by
  rw [get?, get?, push, List.find?_append, List.find?_singleton]
  congr 1
  by_cases hd : d.name = name
  · simp [hd]
  · simp [hd]

theorem get?_push_self {d : TypeDef} (h : r.get? d.name = none) :
    (r.push d).get? d.name = some d := by
  rw [get?_push, h, Option.none_or, if_pos rfl]

theorem get?_push_of_ne {d : TypeDef} {name : String} (h : d.name ≠ name) :
    (r.push d).get? name = r.get? name := by
  rw [get?_push, if_neg h, Option.or_none]

theorem record?_eq_some {name : String} {fields : FieldTypes} :
    r.record? name = some fields ↔ ∃ name', r.get? name = some (.record name' fields) := by
  unfold record?
  constructor
  · intro h
    split at h
    next name' _ hget =>
      cases h
      exact ⟨name', hget⟩
    next => cases h
  · rintro ⟨name', hget⟩
    rw [hget]

theorem union?_eq_some {name : String} {branches : List Branch} :
    r.union? name = some branches ↔ ∃ name', r.get? name = some (.union name' branches) := by
  unfold union?
  constructor
  · intro h
    split at h
    next name' _ hget =>
      cases h
      exact ⟨name', hget⟩
    next => cases h
  · rintro ⟨name', hget⟩
    rw [hget]

theorem record?_mono (h : ∀ {name d}, r.get? name = some d → r'.get? name = some d) {name : String}
    {fields : FieldTypes} (hr : r.record? name = some fields) : r'.record? name = some fields := by
  obtain ⟨name', hget⟩ := record?_eq_some.mp hr
  exact record?_eq_some.mpr ⟨name', h hget⟩

theorem define_eq_ok {d : TypeDef} :
    r.define d = .ok r' ↔
      (r.get? d.name = some d ∧ r' = r) ∨ (r.get? d.name = none ∧ r' = r.push d) := by
  unfold define
  split
  next h => simp [h, eq_comm]
  next existing h =>
    split
    next heq => simp [h, heq, eq_comm]
    next hne => simp [h, hne]

theorem define_extends {d : TypeDef} (h : r.define d = .ok r') : r.Extends r' := by
  rcases define_eq_ok.mp h with ⟨-, rfl⟩ | ⟨-, rfl⟩
  · exact Extends.refl r'
  · exact extends_push r d

theorem get?_define_self {d : TypeDef} (h : r.define d = .ok r') : r'.get? d.name = some d := by
  rcases define_eq_ok.mp h with ⟨hd, rfl⟩ | ⟨hd, rfl⟩
  · exact hd
  · exact get?_push_self hd

theorem get?_define_of_ne {d : TypeDef} (h : r.define d = .ok r') {name : String}
    (hne : d.name ≠ name) : r'.get? name = r.get? name := by
  rcases define_eq_ok.mp h with ⟨-, rfl⟩ | ⟨-, rfl⟩
  · rfl
  · exact get?_push_of_ne hne

/-- What a chain of subtypes ends in is not changed by more steps or more definitions. -/
theorem classifyIn_mono (h : ∀ {name d}, r.get? name = some d → r'.get? name = some d)
    {fuel fuel' : Nat} (hle : fuel ≤ fuel') {type : ColumnType} {c : TypeClass} (hc : r.classifyIn fuel type = .ok (some c)) :
    r'.classifyIn fuel' type = .ok (some c) := by
  induction fuel generalizing fuel' type with
  | zero => simp [classifyIn] at hc
  | succ fuel ih =>
    obtain ⟨fuel', rfl⟩ : ∃ n, fuel' = n + 1 := ⟨fuel' - 1, by omega⟩
    cases type with
    | number => exact hc
    | symbol => exact hc
    | named name =>
      -- The builtin names come before the definitions, and a name keeps its first definition.
      unfold classifyIn at hc ⊢
      split
      next hbool => rwa [if_pos hbool] at hc
      next hbool =>
        rw [if_neg hbool] at hc
        split
        next hid => rwa [if_pos hid] at hc
        next hid =>
          rw [if_neg hid] at hc
          split at hc
          next n base hd =>
            rw [h hd]
            exact ih (by omega) hc
          next n fields hd =>
            rw [h hd]
            exact hc
          next n branches hd =>
            rw [h hd]
            exact hc
          next => cases hc

theorem classify_eq_ok {type : ColumnType} {c : TypeClass} :
    r.classify type = .ok c ↔ r.classifyIn (r.defs.length + 1) type = .ok (some c) := by
  unfold classify
  rw [bind_eq_ok]
  constructor
  · rintro ⟨found, hfound, hc⟩
    cases found with
    | none => cases hc
    | some c' =>
      cases hc
      exact hfound
  · intro h
    exact ⟨some c, h, rfl⟩

theorem classify_mono (h : r.defs <+: r'.defs) {type : ColumnType} {c : TypeClass}
    (hc : r.classify type = .ok c) : r'.classify type = .ok c := by
  have hle := h.length_le
  exact classify_eq_ok.mpr (classifyIn_mono (get?_mono h) (by omega) (classify_eq_ok.mp hc))

theorem Extends.classify_eq (h : r.Extends r') {type : ColumnType} {c : TypeClass}
    (hc : r.classify type = .ok c) : r'.classify type = .ok c :=
  classify_mono h.defs hc

@[simp] theorem classify_number (r : Registry) : r.classify .number = .ok .number := rfl

@[simp] theorem classify_symbol (r : Registry) : r.classify .symbol = .ok .symbol := rfl

@[simp] theorem classify_bool (r : Registry) : r.classify .bool = .ok .bool := rfl

@[simp] theorem classify_id (r : Registry) : r.classify .id = .ok .nodeId := rfl

theorem classify_push_subtype {name : String} {base : ColumnType} {c : TypeClass}
    (hnew : r.get? name = none) (hbool : name ≠ "bool") (hid : name ≠ "id")
    (hc : r.classify base = .ok c) :
    (r.push (.subtype name base)).classify (.named name) = .ok c := by
  have hget : (r.push (.subtype name base)).get? name = some (.subtype name base) :=
    get?_push_self (d := .subtype name base) hnew
  have hlen : (r.push (.subtype name base)).defs.length = r.defs.length + 1 := by
    simp [push]
  rw [classify_eq_ok, hlen, classifyIn, if_neg hbool, if_neg hid, hget]
  exact classifyIn_mono (get?_mono (extends_push r (.subtype name base)).defs) (Nat.le_refl _)
    (classify_eq_ok.mp hc)

/-- Lists of elements of a type are of a type of their own. -/
def IsListOf (r : Registry) (type element : ColumnType) : Prop :=
  r.classify type = .ok .record ∧ r.record? type.name = some [("head", element), ("tail", type)]

theorem Extends.isListOf (h : r.Extends r') {type element : ColumnType}
    (hl : r.IsListOf type element) : r'.IsListOf type element :=
  ⟨h.classify_eq hl.1, record?_mono (get?_mono h.defs) hl.2⟩

theorem listType_extends {element type : ColumnType} (h : r.listType element = .ok (type, r')) :
    r.Extends r' := by
  unfold listType at h
  obtain ⟨r₁, hdef, heq⟩ := map_eq_ok.mp h
  cases heq
  exact define_extends hdef

theorem get?_listType_of_ne {element type : ColumnType} (h : r.listType element = .ok (type, r'))
    {name : String} (hne : element.name ++ "List" ≠ name) : r'.get? name = r.get? name := by
  unfold listType at h
  obtain ⟨r₁, hdef, heq⟩ := map_eq_ok.mp h
  cases heq
  exact get?_define_of_ne hdef hne

theorem listType_isListOf {element type : ColumnType} (h : r.listType element = .ok (type, r')) :
    r'.IsListOf type element := by
  unfold listType at h
  obtain ⟨r₁, hdef, heq⟩ := map_eq_ok.mp h
  cases heq
  have hget := get?_define_self hdef
  simp only [TypeDef.name] at hget
  obtain ⟨hbool, hid⟩ := listName_ne_builtin element.name
  constructor
  · rw [classify_eq_ok, classifyIn, if_neg hbool, if_neg hid, hget]
  · exact record?_eq_some.mpr ⟨_, hget⟩

end Registry

end TreeFacts
