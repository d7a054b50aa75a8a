import TreeFacts.Entries
import TreeFacts.Fact.Set
import TreeFacts.Proofs.Result

namespace TreeFacts

/-- The tuples of the named relation among facts. -/
def tuplesUnder (name : String) (facts : List Fact) : List Tuple :=
  (facts.filter fun fact => fact.1 = name).map (·.2)

theorem tuplesUnder_cons (name : String) (fact : Fact) (facts : List Fact) :
    tuplesUnder name (fact :: facts) =
      if fact.1 = name then fact.2 :: tuplesUnder name facts else tuplesUnder name facts := by
  unfold tuplesUnder
  split
  next h => simp [h]
  next h => simp [h]

theorem tuplesUnder_append (name : String) (facts more : List Fact) :
    tuplesUnder name (facts ++ more) = tuplesUnder name facts ++ tuplesUnder name more := by
  simp only [tuplesUnder, List.filter_append, List.map_append]

theorem tuplesUnder_flatMap {α : Type} (name : String) (as : List α) (facts : α → List Fact) :
    tuplesUnder name (as.flatMap facts) = as.flatMap fun a => tuplesUnder name (facts a) := by
  simp only [tuplesUnder, List.filter_flatMap, List.map_flatMap]

theorem tuplesUnder_map_self (name : String) (tuples : List Tuple) :
    tuplesUnder name (tuples.map (name, ·)) = tuples := by
  induction tuples with
  | nil => rfl
  | cons t tuples ih => rw [List.map_cons, tuplesUnder_cons, if_pos rfl, ih]

theorem tuplesUnder_eq_nil {name : String} {facts : List Fact}
    (h : ∀ fact ∈ facts, fact.1 ≠ name) : tuplesUnder name facts = [] := by
  have hnone : facts.filter (fun fact => fact.1 = name) = [] := by
    simpa [List.filter_eq_nil_iff] using h
  rw [tuplesUnder, hnone, List.map_nil]

theorem mem_tuplesUnder {name : String} {t : Tuple} {facts : List Fact} :
    t ∈ tuplesUnder name facts ↔ (name, t) ∈ facts := by
  simp [tuplesUnder]

namespace FactSet

/-- Every relation stands under its own name, the names in order, and holds tuples of its width. -/
structure WellFormed (fs : FactSet) : Prop where
  ascending : Entries.Ascending fs.tables
  name_eq : ∀ {name r tuples}, fs.table? name = some (r, tuples) → r.name = name
  length_eq : ∀ {name r tuples}, fs.table? name = some (r, tuples) →
    ∀ t ∈ tuples, t.length = r.arity

theorem table?_empty (n : String) : empty.table? n = none := rfl

theorem facts_of_table? {fs : FactSet} {n : String} {r : Relation} {tuples : List Tuple}
    (h : fs.table? n = some (r, tuples)) : fs.facts n = .ok tuples := by
  rw [facts, h]

theorem table?_declare (fs : FactSet) (r : Relation) (n : String) :
    (fs.declare r).table? n =
      if n = r.name then some ((fs.table? r.name).getD (r, [])) else fs.table? n := by
  unfold declare
  split
  next table h =>
    split
    next hn => rw [hn, h, Option.getD_some]
    next => rfl
  next h =>
    rw [h, Option.getD_none]
    exact Entries.lookup_insert r.name (r, []) fs.tables n

theorem add_eq_ok {fs fs' : FactSet} {name : String} {t : Tuple} :
    fs.add name t = .ok fs' ↔
      ∃ r tuples, fs.table? name = some (r, tuples) ∧ t.length = r.arity ∧
        fs' = ⟨Entries.insert name (r, tuples ++ [t]) fs.tables⟩ := by
  unfold add
  split
  next h => simp [h]
  next r tuples h =>
    split
    next hlen =>
      constructor
      · intro heq
        exact ⟨r, tuples, h, hlen, (Except.ok.inj heq).symm⟩
      · rintro ⟨r', tuples', hr, -, rfl⟩
        obtain ⟨rfl, rfl⟩ := Prod.mk.inj (Option.some.inj (h.symm.trans hr))
        rfl
    next hlen =>
      constructor
      · intro heq
        cases heq
      · rintro ⟨r', tuples', hr, hlen', -⟩
        obtain ⟨rfl, rfl⟩ := Prod.mk.inj (Option.some.inj (h.symm.trans hr))
        exact absurd hlen' hlen

theorem table?_of_add {fs fs' : FactSet} {name : String} {t : Tuple} (h : fs.add name t = .ok fs')
    (n : String) :
    fs'.table? n =
      if n = name then (fs.table? name).map fun table => (table.1, table.2 ++ [t])
      else fs.table? n := by
  obtain ⟨r, tuples, hr, -, rfl⟩ := add_eq_ok.mp h
  rw [hr, Option.map_some]
  exact Entries.lookup_insert name (r, tuples ++ [t]) fs.tables n

theorem wellFormed_empty : WellFormed empty where
  ascending := Entries.ascending_nil
  name_eq h := by simp [table?_empty] at h
  length_eq h := by simp [table?_empty] at h

theorem WellFormed.declare {fs : FactSet} (h : fs.WellFormed) (r : Relation) :
    (fs.declare r).WellFormed where
  ascending := by
    unfold FactSet.declare
    split
    next => exact h.ascending
    next => exact h.ascending.insert r.name (r, [])
  name_eq := by
    intro name r' tuples hr
    rw [table?_declare] at hr
    split at hr
    next hn =>
      cases hopen : fs.table? r.name with
      | none =>
        simp only [hopen, Option.getD_none, Option.some.injEq, Prod.mk.injEq] at hr
        rw [← hr.1, hn]
      | some table =>
        simp only [hopen, Option.getD_some, Option.some.injEq] at hr
        rw [hn]
        exact h.name_eq (hr ▸ hopen)
    next => exact h.name_eq hr
  length_eq := by
    intro name r' tuples hr
    rw [table?_declare] at hr
    split at hr
    next hn =>
      cases hopen : fs.table? r.name with
      | none =>
        simp only [hopen, Option.getD_none, Option.some.injEq, Prod.mk.injEq] at hr
        simp [← hr.2]
      | some table =>
        simp only [hopen, Option.getD_some, Option.some.injEq] at hr
        exact h.length_eq (hr ▸ hopen)
    next => exact h.length_eq hr

theorem WellFormed.add {fs fs' : FactSet} (h : fs.WellFormed) {name : String} {t : Tuple}
    (ha : fs.add name t = .ok fs') : fs'.WellFormed where
  ascending := by
    obtain ⟨r, tuples, -, -, rfl⟩ := add_eq_ok.mp ha
    exact h.ascending.insert name (r, tuples ++ [t])
  name_eq := by
    intro n r' tuples' hr
    obtain ⟨r, tuples, hopen, -, -⟩ := add_eq_ok.mp ha
    rw [table?_of_add ha, hopen] at hr
    split at hr
    next hn =>
      simp only [Option.map_some, Option.some.injEq, Prod.mk.injEq] at hr
      rw [hn, ← hr.1]
      exact h.name_eq hopen
    next => exact h.name_eq hr
  length_eq := by
    intro n r' tuples' hr
    obtain ⟨r, tuples, hopen, hlen, -⟩ := add_eq_ok.mp ha
    rw [table?_of_add ha, hopen] at hr
    split at hr
    next hn =>
      simp only [Option.map_some, Option.some.injEq, Prod.mk.injEq] at hr
      rw [← hr.1, ← hr.2]
      intro u hu
      rcases List.mem_append.mp hu with hu | hu
      · exact h.length_eq hopen u hu
      · rw [List.mem_singleton.mp hu, hlen]
    next => exact h.length_eq hr

theorem table?_foldl_declare (fs : FactSet) (relations : List Relation) (n : String) :
    (relations.foldl declare fs).table? n =
      (fs.table? n).or ((relations.find? (·.name == n)).map fun r => (r, [])) := by
  induction relations generalizing fs with
  | nil => simp
  | cons r relations ih =>
    rw [List.foldl_cons, ih, table?_declare]
    by_cases hn : n = r.name
    · subst hn
      simp only [if_pos, List.find?_cons, beq_self_eq_true, Option.map_some]
      cases fs.table? r.name <;> rfl
    · have hne : (r.name == n) = false := beq_eq_false_iff_ne.mpr (Ne.symm hn)
      rw [if_neg hn, List.find?_cons, hne]

theorem table?_ofRelations (relations : List Relation) (n : String) :
    (ofRelations relations).table? n =
      (relations.find? (·.name == n)).map fun r => (r, []) := by
  rw [ofRelations, table?_foldl_declare, table?_empty, Option.none_or]

/-- Adding facts puts the tuples of each relation behind those that are there. -/
theorem table?_of_addAll {facts : List Fact} {fs fs' : FactSet} (h : fs.addAll facts = .ok fs')
    (n : String) :
    fs'.table? n = (fs.table? n).map fun table => (table.1, table.2 ++ tuplesUnder n facts) := by
  induction facts generalizing fs with
  | nil =>
    cases h
    simp [tuplesUnder]
  | cons fact facts ih =>
    rw [addAll, List.foldlM_cons] at h
    obtain ⟨fs₁, hadd, h⟩ := bind_eq_ok.mp h
    rw [ih h, table?_of_add hadd, tuplesUnder_cons]
    by_cases hn : n = fact.1
    · subst hn
      simp only [if_pos, Option.map_map]
      congr 1
      funext table
      simp
    · rw [if_neg hn, if_neg (Ne.symm hn)]

theorem addAll_isOk {facts : List Fact} {fs : FactSet}
    (h : ∀ fact ∈ facts, ∃ r tuples, fs.table? fact.1 = some (r, tuples) ∧
      fact.2.length = r.arity) : ∃ fs', fs.addAll facts = .ok fs' := by
  induction facts generalizing fs with
  | nil => exact ⟨fs, rfl⟩
  | cons fact facts ih =>
    obtain ⟨r, tuples, hopen, hlen⟩ := h fact List.mem_cons_self
    obtain ⟨fs₁, hadd⟩ : ∃ fs₁, fs.add fact.1 fact.2 = .ok fs₁ :=
      ⟨_, add_eq_ok.mpr ⟨r, tuples, hopen, hlen, rfl⟩⟩
    have hrest : ∀ other ∈ facts, ∃ r tuples, fs₁.table? other.1 = some (r, tuples) ∧
        other.2.length = r.arity := by
      intro other hother
      obtain ⟨r', tuples', hopen', hlen'⟩ := h other (List.mem_cons_of_mem _ hother)
      rw [table?_of_add hadd]
      split
      next heq =>
        rw [← heq, hopen']
        exact ⟨r', tuples' ++ [fact.2], rfl, hlen'⟩
      next => exact ⟨r', tuples', hopen', hlen'⟩
    obtain ⟨fs', hfs'⟩ := ih hrest
    refine ⟨fs', ?_⟩
    rw [addAll, List.foldlM_cons, hadd]
    exact hfs'

theorem fits_of_addAll {facts : List Fact} {fs fs' : FactSet} (h : fs.addAll facts = .ok fs') :
    ∀ fact ∈ facts, ∃ r tuples, fs.table? fact.1 = some (r, tuples) ∧ fact.2.length = r.arity := by
  induction facts generalizing fs with
  | nil => simp
  | cons fact facts ih =>
    rw [addAll, List.foldlM_cons] at h
    obtain ⟨fs₁, hadd, h⟩ := bind_eq_ok.mp h
    obtain ⟨r, tuples, hopen, hlen, -⟩ := add_eq_ok.mp hadd
    intro other hother
    rcases List.mem_cons.mp hother with rfl | hother
    · exact ⟨r, tuples, hopen, hlen⟩
    · obtain ⟨r', tuples', hopen', hlen'⟩ := ih h other hother
      rw [table?_of_add hadd] at hopen'
      split at hopen'
      next heq =>
        rw [hopen] at hopen'
        cases hopen'
        exact ⟨r, tuples, heq ▸ hopen, hlen'⟩
      next => exact ⟨r', tuples', hopen', hlen'⟩

theorem ext_of_table? {fs fs' : FactSet} (h : Entries.Ascending fs.tables)
    (h' : Entries.Ascending fs'.tables) (heq : ∀ n, fs.table? n = fs'.table? n) : fs = fs' := by
  obtain ⟨tables⟩ := fs
  obtain ⟨tables'⟩ := fs'
  exact congrArg FactSet.mk (h.ext h' heq)

end FactSet

end TreeFacts
