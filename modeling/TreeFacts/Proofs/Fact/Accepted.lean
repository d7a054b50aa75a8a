import TreeFacts.Proofs.Fact.Typing
import TreeFacts.Proofs.Result

namespace TreeFacts.FactValue

variable {r : Registry} {text : String} {type : ColumnType} {v : FactValue} {cs rest : List Char}

theorem parseNumber_eq_ok (h : parseNumber cs = .ok v) : ∃ n, v = number n := by
  unfold parseNumber at h
  split at h
  next n _ => exact ⟨n, (Except.ok.inj h).symm⟩
  next => cases h

theorem readNumber_eq_ok (h : readNumber cs = .ok (v, rest)) : ∃ n, v = number n := by
  obtain ⟨w, hw, heq⟩ := map_eq_ok.mp h
  cases heq
  exact parseNumber_eq_ok hw

theorem readSymbol_eq_ok (h : readSymbol text cs = .ok (v, rest)) : ∃ s, v = symbol s := by
  unfold readSymbol at h
  split at h
  next =>
    split at h
    next s _ _ =>
      cases h
      exact ⟨String.ofList s, rfl⟩
    next => cases h
  next =>
    cases h
    exact ⟨_, rfl⟩

/-- A way of reading that gives values of the type they are read at, with branches whose names can
be told from what follows them. -/
def ReadsTyped (r : Registry) (read : ReadType) : Prop :=
  ∀ {type cs v rest}, read type cs = .ok (v, rest) → HasType r v type ∧ v.hasPlainTags = true

theorem readMoreFields_haveTypes {read : ReadType} (hread : ReadsTyped r read) {fields : FieldTypes}
    {vs : List FactValue} (h : readMoreFields text read fields cs = .ok (vs, rest)) :
    HaveTypes r vs fields ∧ allHavePlainTags vs = true := by
  induction fields generalizing cs vs with
  | nil =>
    cases h
    simp [HaveTypes, allHavePlainTags]
  | cons field fields ih =>
    unfold readMoreFields at h
    obtain ⟨cs₁, -, h⟩ := bind_eq_ok.mp h
    obtain ⟨⟨v, cs₂⟩, hv, h⟩ := bind_eq_ok.mp h
    obtain ⟨⟨more, cs₃⟩, hmore, h⟩ := bind_eq_ok.mp h
    cases h
    obtain ⟨htype, hplain⟩ := hread hv
    obtain ⟨htypes, hplains⟩ := ih hmore
    simp only [HaveTypes, allHavePlainTags, Bool.and_eq_true]
    exact ⟨⟨htype, htypes⟩, hplain, hplains⟩

theorem readFields_haveTypes {read : ReadType} (hread : ReadsTyped r read) {fields : FieldTypes}
    {vs : List FactValue} (h : readFields text read fields cs = .ok (vs, rest)) :
    HaveTypes r vs fields ∧ allHavePlainTags vs = true := by
  cases fields with
  | nil =>
    cases h
    simp [HaveTypes, allHavePlainTags]
  | cons field fields =>
    unfold readFields at h
    obtain ⟨⟨v, cs₁⟩, hv, h⟩ := bind_eq_ok.mp h
    obtain ⟨⟨more, cs₂⟩, hmore, h⟩ := bind_eq_ok.mp h
    cases h
    obtain ⟨htype, hplain⟩ := hread hv
    obtain ⟨htypes, hplains⟩ := readMoreFields_haveTypes hread hmore
    simp only [HaveTypes, allHavePlainTags, Bool.and_eq_true]
    exact ⟨⟨htype, htypes⟩, hplain, hplains⟩

theorem readRecord_hasType {read : ReadType} (hread : ReadsTyped r read) {fields : FieldTypes}
    (hc : r.classify type = .ok .record) (hf : r.record? type.name = some fields)
    (h : readRecord text read fields cs = .ok (v, rest)) :
    HasType r v type ∧ v.hasPlainTags = true := by
  unfold readRecord at h
  split at h
  next =>
    cases h
    simp only [HasType, hasPlainTags, and_true]
    exact ⟨hc, fields, hf⟩
  next =>
    obtain ⟨cs₁, -, h⟩ := bind_eq_ok.mp h
    obtain ⟨⟨vs, cs₂⟩, hvs, h⟩ := bind_eq_ok.mp h
    obtain ⟨cs₃, -, h⟩ := bind_eq_ok.mp h
    cases h
    obtain ⟨htypes, hplains⟩ := readFields_haveTypes hread hvs
    simp only [HasType, hasPlainTags]
    exact ⟨⟨hc, fields, hf, htypes⟩, hplains⟩

theorem readBranch_hasType {read : ReadType} (hread : ReadsTyped r read) {branches : List Branch}
    (hc : r.classify type = .ok .union) (hb : r.union? type.name = some branches)
    (h : readBranch text read type.name branches cs = .ok (v, rest)) :
    HasType r v type ∧ v.hasPlainTags = true := by
  unfold readBranch at h
  obtain ⟨cs₁, -, h⟩ := bind_eq_ok.mp h
  simp only at h
  split at h
  next => cases h
  next b hfind =>
    -- The branch is looked up again under its own name, which is the tag it was found by.
    have hbeq := List.find?_some hfind
    have hname : b.name = String.ofList (cs₁.takeWhile isTagChar) := eq_of_beq hbeq
    have hfound : branches.find? (·.name == b.name) = some b := by
      rwa [hname]
    have htag : b.name.toList.all isTagChar = true := by
      rw [hname, String.toList_ofList]
      exact List.all_takeWhile
    split at h
    next =>
      obtain ⟨⟨args, cs₂⟩, hargs, h⟩ := bind_eq_ok.mp h
      obtain ⟨cs₃, -, h⟩ := bind_eq_ok.mp h
      cases h
      obtain ⟨htypes, hplains⟩ := readFields_haveTypes hread hargs
      simp only [HasType, hasPlainTags, Bool.and_eq_true]
      exact ⟨⟨hc, branches, b, hb, hfound, htypes⟩, htag, hplains⟩
    next =>
      split at h
      next hnone =>
        cases h
        simp only [HasType, hasPlainTags, allHavePlainTags, Bool.and_true]
        refine ⟨⟨hc, branches, b, hb, hfound, ?_⟩, htag⟩
        rw [List.isEmpty_iff.mp hnone]
        simp [HaveTypes]
      next => cases h

theorem readClassified_hasType {inner : Option ReadType}
    (hinner : ∀ read ∈ inner, ReadsTyped r read) :
    ReadsTyped r (readClassified r text inner) := by
  intro type cs v rest h
  obtain ⟨c, hc, hread⟩ := bind_eq_ok.mp h
  cases c with
  | symbol =>
    obtain ⟨s, rfl⟩ := readSymbol_eq_ok hread
    simpa only [HasType, hasPlainTags, and_true] using hc
  | number | bool | nodeId =>
    obtain ⟨n, rfl⟩ := readNumber_eq_ok hread
    simp only [HasType, hasPlainTags, and_true]
    exact ⟨_, hc, by simp⟩
  | record =>
    simp only at hread
    split at hread
    next => cases hread
    next => cases hread
    next hf => exact readRecord_hasType (hinner _ rfl) hc hf hread
  | union =>
    simp only at hread
    split at hread
    next => cases hread
    next => cases hread
    next hb => exact readBranch_hasType (hinner _ rfl) hc hb hread

theorem readValue_hasType (r : Registry) (text : String) (fuel : Nat) :
    ReadsTyped r (readValue r text fuel) := by
  induction fuel with
  | zero => exact readClassified_hasType (by simp)
  | succ fuel ih =>
    refine readClassified_hasType ?_
    intro read hread
    cases hread
    exact ih

theorem parse_typed (h : parse r type text = .ok v) : HasType r v type ∧ v.hasPlainTags = true := by
  unfold parse at h
  obtain ⟨c, hc, h⟩ := bind_eq_ok.mp h
  cases c with
  | symbol =>
    cases h
    simpa only [HasType, hasPlainTags, and_true] using hc
  | number | bool | nodeId =>
    obtain ⟨n, rfl⟩ := parseNumber_eq_ok h
    simp only [HasType, hasPlainTags, and_true]
    exact ⟨_, hc, by simp⟩
  | record | union =>
    obtain ⟨⟨w, rest⟩, hw, h⟩ := bind_eq_ok.mp h
    simp only at h
    split at h
    next =>
      cases h
      exact readValue_hasType r text _ hw
    next => cases h

/-- Every text that is accepted at a type stands for a value of the type. -/
theorem hasType_of_parse (h : parse r type text = .ok v) : HasType r v type := (parse_typed h).1

end TreeFacts.FactValue
