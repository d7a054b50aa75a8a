import TreeFacts.Fact.Reader

namespace TreeFacts

mutual

/-- The values of a type. Numbers also stand for truth values and references. A record has the
declared fields; a branch is the first of its name and has the declared arguments. -/
def HasType (r : Registry) : FactValue → ColumnType → Prop
  | .number _, type =>
    ∃ c, r.classify type = .ok c ∧ (c = .number ∨ c = .bool ∨ c = .nodeId)
  | .symbol _, type => r.classify type = .ok .symbol
  | .nil, type => r.classify type = .ok .record ∧ ∃ fields, r.record? type.name = some fields
  | .record vs, type =>
    r.classify type = .ok .record ∧
      ∃ fields, r.record? type.name = some fields ∧ HaveTypes r vs fields
  | .branch tag args, type =>
    r.classify type = .ok .union ∧
      ∃ branches b, r.union? type.name = some branches ∧
        branches.find? (·.name == tag) = some b ∧ HaveTypes r args b.fields

def HaveTypes (r : Registry) : List FactValue → FieldTypes → Prop
  | [], [] => True
  | v :: vs, (_, type) :: fields => HasType r v type ∧ HaveTypes r vs fields
  | _, _ => False

end

theorem HaveTypes.length_eq {r : Registry} {vs : List FactValue} {fields : FieldTypes}
    (h : HaveTypes r vs fields) : vs.length = fields.length := by
  induction vs generalizing fields with
  | nil =>
    cases fields with
    | nil => rfl
    | cons field fields => simp [HaveTypes] at h
  | cons v vs ih =>
    cases fields with
    | nil => simp [HaveTypes] at h
    | cons field fields =>
      simp only [HaveTypes] at h
      simp [ih h.2]

namespace FactValue

mutual

/-- Whether the branches inside a value have names of letters, digits and underscores. -/
def hasPlainTags : FactValue → Bool
  | .record fields => allHavePlainTags fields
  | .branch tag args => tag.toList.all isTagChar && allHavePlainTags args
  | .number _ | .symbol _ | .nil => true

def allHavePlainTags : List FactValue → Bool
  | [] => true
  | v :: rest => v.hasPlainTags && allHavePlainTags rest

end

end FactValue

end TreeFacts
